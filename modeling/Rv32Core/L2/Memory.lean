import Rv32Core.L2.Invariant

/-! # What the second-level cache presents

`Phase` says, for each state of the state machine, what the set it works on looks like.
`logical` is the memory the cache presents: the lines seen through the cache, with the store
being served already done and the line being flushed still there.  Every cycle keeps `Phase`,
and changes `logical` exactly by the store it acknowledges; so `logical` is what the clients
expect. -/

namespace Rv32Core

open WriteBack

/-- A memory of 64-byte lines by tag and set, each of four banks. -/
abbrev Lower := L2Tag → L2Idx → Bank → Line

namespace L2

variable (s : L2) (i : L2In) (m : Lower)

/-- The lines of the cache. -/
def lines : Lines L2Idx L2Tag (Bank → Line) where
  valid := s.validRam
  dirty := s.dirtyRam
  tag := s.tagRam
  data j b := s.dataRam b j

/-- Set `j` holds nothing. -/
def Cleared (j : L2Idx) : Prop := s.lines.valid j = false ∧ s.lines.dirty j = false

/-- The registered reads show set `r_idx`. -/
structure Reads : Prop where
  valid : s.wValid = s.lines.valid s.rIdx
  dirty : s.wDirty = s.lines.dirty s.rIdx
  tag : s.wTag = s.lines.tag s.rIdx
  data : s.wD = s.lines.data s.rIdx

/-- A request is being served, the request address is that of its line. -/
structure Serves : Prop where
  coherent : s.lines.Coherent m
  saveaddr : s.rSaveaddr = blockAddr s.rTag s.rIdx

/-- No request is being served. -/
structure Rests : Prop where
  coherent : s.lines.Coherent m
  reload : s.rReload = false

/-- Where the state machine is with the set it works on. -/
def Phase : Prop :=
  match s.rState with
  | .initialise => s.rReload = false ∧ ∀ j, 0 < j → j ≤ s.rIdx → s.Cleared j
  | .idle | .waitStoreIdle => s.Rests m
  | .checkValidAndTag =>
      s.Serves m ∧ s.rAddr = blockAddr s.rTag s.rIdx ∧ s.Reads ∧
        (s.rReload = true → s.lines.Hit s.rTag s.rIdx)
  | .dirtyStore =>
      s.Serves m ∧ s.rMemOpcode = .sw ∧ s.lines.valid s.rIdx = true ∧
        s.rAddr = blockAddr (s.lines.tag s.rIdx) s.rIdx ∧
        s.rMemReqStoreData.bank = s.lines.data s.rIdx
  | .storeTurnaround | .cleanReload =>
      s.Serves m ∧ s.rMemOpcode = .lw ∧ s.rAddr = blockAddr s.rTag s.rIdx ∧
        s.lines.Synced m s.rIdx
  | .waitCleanReload =>
      s.Serves m ∧ s.rAddr = blockAddr s.rTag s.rIdx ∧ s.lines.Hit s.rTag s.rIdx
  | .flushWait => s.Rests m ∧ ∀ j, j < s.rIdx → s.Cleared j
  | .flushTriage =>
      s.Rests m ∧ (∀ j, j ≤ s.rIdx → s.Cleared j) ∧
        (s.wValid = true → s.wDirty = false → s.wD = m s.wTag s.rIdx)
  | .flushStore =>
      s.Rests m ∧ (∀ j, j ≤ s.rIdx → s.Cleared j) ∧ s.rMemOpcode = .sw ∧
        ∃ t, s.rAddr = blockAddr t s.rIdx

/-- The store being served. -/
def pendingStore : Bool := s.serving && s.rOpcode == .sw

/-- The line of the request with its store done. -/
def storedLine (v : Bank → Line) : Bank → Line := Function.update v s.rBank s.rStoreData

/-- The memory the cache presents over main memory `m`. -/
def logical : Lower :=
  let v := s.lines.view m
  match s.rState with
  | .initialise => m
  | .flushTriage => if s.wNeedWb then put v s.wTag s.rIdx s.wD else v
  | .flushStore => put v (l2TagOf s.rAddr) s.rIdx s.rMemReqStoreData.bank
  | _ => if s.pendingStore then put v s.rTag s.rIdx (s.storedLine (v s.rTag s.rIdx)) else v

variable {s i m}

/-! ### The RAMs in one cycle -/

theorem step_lines (hv : (s.ctl i).tWrValid = false) (hd : (s.ctl i).tWrDirty = false)
    (ht : (s.ctl i).tWrTag = false) (hw : (s.ctl i).tWrD = fun _ => false) :
    (s.step i).lines = s.lines := by
  simp only [lines, step, hv, hd, ht, hw, writeIf_false]

theorem reads_step (h : (s.step i).lines = s.lines) : (s.step i).Reads :=
  ⟨congrFun (congrArg Lines.valid h).symm _, congrFun (congrArg Lines.dirty h).symm _,
    congrFun (congrArg Lines.tag h).symm _, congrFun (congrArg Lines.data h).symm _⟩

theorem wHit_iff (h : s.Reads) : s.wHit = true ↔ s.lines.Hit s.rTag s.rIdx := by
  unfold wHit Lines.Hit
  rw [h.valid, h.tag]
  by_cases hv : s.lines.valid s.rIdx = true
  · rw [if_pos hv, beq_iff_eq]
    exact ⟨fun ht => ⟨hv, ht.symm⟩, fun ht => ht.2.symm⟩
  · rw [if_neg hv]
    exact ⟨fun hf => (Bool.false_ne_true hf).elim, fun hh => absurd hh.1 hv⟩

theorem lines_hitStore
    (hv : (s.ctl i).tWrValid = false) (ht : (s.ctl i).tWrTag = false)
    (hd : (s.ctl i).tWrDirty = true) (hdv : (s.ctl i).tDirty = true) (hi : (s.ctl i).tIdx = s.rIdx)
    (hw : (s.ctl i).tWrD = Function.update (fun _ => false) s.rBank true)
    (hdd : (s.ctl i).tD s.rBank = s.rStoreData) :
    (s.step i).lines = s.lines.write s.rIdx (s.storedLine (s.lines.data s.rIdx)) := by
  simp only [lines, step, hv, hd, ht, hi, hdv, writeIf_false, writeIf_true, Lines.write]
  congr 1
  funext j b
  rw [hw]
  by_cases hb : b = s.rBank
  · subst hb
    rw [Function.update_self, writeIf_true, hdd]
    by_cases hj : j = s.rIdx
    · rw [hj, Function.update_self, Function.update_self, storedLine, Function.update_self]
    · rw [Function.update_of_ne hj, Function.update_of_ne hj]
  · rw [Function.update_of_ne hb, writeIf_false]
    by_cases hj : j = s.rIdx
    · rw [hj, Function.update_self, storedLine, Function.update_of_ne hb]
    · rw [Function.update_of_ne hj]

theorem lines_loaded
    (hv : (s.ctl i).tWrValid = true) (hvv : (s.ctl i).tValid = true)
    (ht : (s.ctl i).tWrTag = true) (hd : (s.ctl i).tWrDirty = false)
    (hi : (s.ctl i).tIdx = s.rIdx) (hw : (s.ctl i).tWrD = fun _ => true)
    (hdd : (s.ctl i).tD = i.memRspLoadData.bank) :
    (s.step i).lines =
      s.lines.fill s.rIdx s.rTag i.memRspLoadData.bank (s.lines.dirty s.rIdx) := by
  simp only [lines, step, hv, hd, ht, hi, hvv, hw, hdd, writeIf_false, writeIf_true, Lines.fill,
    Function.update_eq_self]
  congr 1
  funext j b
  by_cases hj : j = s.rIdx
  · rw [hj, Function.update_self, Function.update_self]
  · rw [Function.update_of_ne hj, Function.update_of_ne hj]

theorem lines_drop
    (hv : (s.ctl i).tWrValid = true) (hvv : (s.ctl i).tValid = false)
    (hd : (s.ctl i).tWrDirty = true) (hdv : (s.ctl i).tDirty = false)
    (ht : (s.ctl i).tWrTag = false) (hi : (s.ctl i).tIdx = s.rIdx)
    (hw : (s.ctl i).tWrD = fun _ => false) : (s.step i).lines = s.lines.drop s.rIdx := by
  simp only [lines, step, hv, hd, ht, hi, hvv, hdv, hw, writeIf_false, writeIf_true, Lines.drop]

theorem cleared_drop (h : (s.step i).lines = s.lines.drop s.rIdx) (j : L2Idx)
    (hj : j = s.rIdx ∨ s.Cleared j) : (s.step i).Cleared j := by
  unfold Cleared
  rw [h]
  rcases eq_or_ne j s.rIdx with rfl | hne
  · exact ⟨Function.update_self .., Function.update_self ..⟩
  · simp only [Lines.drop, Function.update_of_ne hne]
    exact hj.resolve_left hne

theorem cleared_of_lines (h : (s.step i).lines = s.lines) {j : L2Idx} (hj : s.Cleared j) :
    (s.step i).Cleared j := by
  unfold Cleared
  rw [h]
  exact hj

theorem cleared_walk (hv : (s.ctl i).tWrValid = true) (hvv : (s.ctl i).tValid = false)
    (hd : (s.ctl i).tWrDirty = true) (hdv : (s.ctl i).tDirty = false)
    (hi : (s.ctl i).tIdx = s.rIdx + 1) (j : L2Idx) (hj : j = s.rIdx + 1 ∨ s.Cleared j) :
    (s.step i).Cleared j := by
  have hv' : (s.step i).lines.valid = Function.update s.lines.valid (s.rIdx + 1) false := by
    simp only [lines, step, hv, hvv, hi, writeIf_true]
  have hd' : (s.step i).lines.dirty = Function.update s.lines.dirty (s.rIdx + 1) false := by
    simp only [lines, step, hd, hdv, hi, writeIf_true]
  unfold Cleared
  rw [hv', hd']
  by_cases hne : j = s.rIdx + 1
  · rw [hne]
    exact ⟨Function.update_self .., Function.update_self ..⟩
  · rw [Function.update_of_ne hne, Function.update_of_ne hne]
    exact hj.resolve_left hne

/-- After the last set of INITIALIZE the cache is empty. -/
theorem cleared_last (hv : (s.ctl i).tWrValid = true) (hvv : (s.ctl i).tValid = false)
    (hd : (s.ctl i).tWrDirty = true) (hdv : (s.ctl i).tDirty = false)
    (hi : (s.ctl i).tIdx = s.rIdx + 1) (hl : s.atLast = true)
    (h : ∀ j, 0 < j → j ≤ s.rIdx → s.Cleared j) (j : L2Idx) : (s.step i).Cleared j := by
  have hlast : s.rIdx = 16383 := of_decide_eq_true hl
  refine cleared_walk hv hvv hd hdv hi j ?_
  by_cases hj : j = s.rIdx + 1
  · exact .inl hj
  · refine .inr (h j ?_ ?_)
    · rw [hlast] at hj
      bv_omega
    · rw [hlast]
      bv_omega

theorem coherent_of_cleared (h : ∀ j, s.Cleared j) : s.lines.Coherent m :=
  ⟨fun j hj => absurd hj (by rw [(h j).2]; exact Bool.false_ne_true),
    fun j _ => .of_invalid (h j).1⟩

end L2

namespace L2Sys

variable {s : L2Sys} {i : L2In}

/-! ### Main memory in one cycle -/

/-- Main memory by tag and set. -/
def below (s : L2Sys) : Lower := fun t j => (s.mem (t ++ j)).bank

theorem step_below (h : i.memRspValid = true → s.l2.rMemOpcode = .lw) :
    (s.step i).below = s.below := by
  have hn : (i.memRspValid && s.l2.rMemOpcode == .sw) = false := by
    cases hm : i.memRspValid with
    | false => rfl
    | true => rw [h hm]; rfl
  have hmem : (s.step i).mem = s.mem := by
    show s.nMem i = s.mem
    rw [nMem, hn]
    rfl
  unfold below
  rw [hmem]

theorem step_below_store {t : L2Tag} {j : L2Idx} (hm : i.memRspValid = true)
    (ho : s.l2.rMemOpcode = .sw) (ha : s.l2.rAddr = blockAddr t j) :
    (s.step i).below = put s.below t j s.l2.rMemReqStoreData.bank := by
  have hmem : (s.step i).mem = Function.update s.mem (t ++ j) s.l2.rMemReqStoreData := by
    show s.nMem i = _
    rw [nMem, hm, ho, ha, blockNo_blockAddr]
    rfl
  funext t' j'
  unfold below put
  rw [hmem, Function.update_apply]
  by_cases h : t' = t ∧ j' = j
  · rw [if_pos h, if_pos (by rw [h.1, h.2])]
  · rw [if_neg h, if_neg fun he => h (append_inj he)]

theorem Env.load_eq (he : s.Env i) {t : L2Tag} {j : L2Idx} (hm : i.memRspValid = true)
    (ho : s.l2.rMemOpcode = .lw) (ha : s.l2.rAddr = blockAddr t j) :
    i.memRspLoadData.bank = s.below t j := by
  rw [he.mem_load hm ho, ha, blockNo_blockAddr]
  rfl

/-! ### The phases -/

/-- The request to main memory is up exactly in the states that wait for it. -/
theorem memReq_step (h : s.l2.rMemReq = true ↔ s.l2.Waiting) :
    (s.l2.step i).rMemReq = true ↔ (s.l2.step i).Waiting := by
  have hn : (s.l2.step i).rMemReq = (s.l2.ctl i).nMemReq := rfl
  have hst : (s.l2.step i).rState = (s.l2.ctl i).nState := rfl
  unfold L2.Waiting at h ⊢
  rw [hn, hst]
  cases s.l2.move i with
  | wait hw hm hc => simpa [hc, L2.dfltCtl] using h
  | walk hs hc =>
      cases hl : s.l2.atLast <;> simp [hc, hl, L2.dfltCtl] <;> simpa [hs] using h
  | triageClean hs hd hc =>
      cases hl : s.l2.atLast <;> simp [hc, hl, L2.nextSet, L2.dfltCtl] <;> simpa [hs] using h
  | flushed hs hm hc => cases hl : s.l2.atLast <;> simp [hc, hl, L2.nextSet]
  | rest hs | flush hs | grantL1i hs | grantL1d hs | hitLoad hs | hitStore hs | hitOther hs
  | settle hs | written hs | drop hs => simp_all [L2.dfltCtl]
  | _ => simp [*]

theorem reach_memReq {s : L2Sys} (h : l2System.Reach Env s) :
    s.l2.rMemReq = true ↔ s.l2.Waiting := by
  refine h.invariant (P := fun s => s.l2.rMemReq = true ↔ s.l2.Waiting) ?_ ?_
  · rintro s ⟨⟨p, hp⟩, -⟩
    rw [hp]
    simp [L2.init, L2.Waiting]
  · exact fun s i hs _ => memReq_step hs

/-- Main memory is silent outside the states that wait for it. -/
theorem quiet_of_not_waiting (hmr : s.l2.rMemReq = true ↔ s.l2.Waiting) (he : s.Env i)
    (h : ¬s.l2.Waiting) : (s.step i).below = s.below :=
  step_below fun hm => absurd (hmr.mp (he.mem_asked hm)) h

theorem lines_of_ctl {c : L2Ctl} (hc : s.l2.ctl i = c) (hv : c.tWrValid = false)
    (hd : c.tWrDirty = false) (ht : c.tWrTag = false) (hw : c.tWrD = fun _ => false) :
    (s.l2.step i).lines = s.l2.lines := by
  subst hc
  exact L2.step_lines hv hd ht hw

theorem phase_grant {a : Word} (hl : (s.l2.step i).lines = s.l2.lines)
    (hm : (s.step i).below = s.below) (h : s.l2.Rests s.below)
    (hst : (s.l2.step i).rState = .checkValidAndTag) (ha : (s.l2.step i).rAddr = blockOf a)
    (hsa : (s.l2.step i).rSaveaddr = blockOf a) (ht : (s.l2.step i).rTag = l2TagOf a)
    (hi : (s.l2.step i).rIdx = l2IdxOf a) (hr : (s.l2.step i).rReload = s.l2.rReload) :
    (s.l2.step i).Phase (s.step i).below := by
  unfold L2.Phase
  rw [hst, hm, ha, ht, hi, hr, h.reload]
  refine ⟨⟨hl ▸ h.coherent, ?_⟩, blockOf_eq a, L2.reads_step hl, fun h => by cases h⟩
  rw [hsa, ht, hi]
  exact blockOf_eq a

theorem phase_idle (hmr : s.l2.rMemReq = true ↔ s.l2.Waiting) (he : s.Env i)
    (h : s.l2.Phase s.below) (hs : s.l2.rState = .idle) :
    (s.l2.step i).Phase (s.step i).below := by
  have hm := quiet_of_not_waiting hmr he (by simp [L2.Waiting, hs])
  have h' : s.l2.Rests s.below := by simpa only [L2.Phase, hs] using h
  cases s.l2.move i with
  | rest _ hf hd hi hc =>
      have hst : (s.l2.step i).rState = .idle := (congrArg L2Ctl.nState hc).trans hs
      have hl := lines_of_ctl hc rfl rfl rfl rfl
      simp only [L2.Phase, hst, hm]
      exact ⟨hl ▸ h'.coherent, (congrArg L2Ctl.nReload hc).trans h'.reload⟩
  | flush _ hf hc =>
      have hst : (s.l2.step i).rState = .flushWait := congrArg L2Ctl.nState hc
      have hi : (s.l2.step i).rIdx = 0 := congrArg L2Ctl.tIdx hc
      have hl := lines_of_ctl hc rfl rfl rfl rfl
      simp only [L2.Phase, hst, hm, hi]
      refine ⟨⟨hl ▸ h'.coherent, (congrArg L2Ctl.nReload hc).trans h'.reload⟩, ?_⟩
      intro j hj
      exact absurd hj (Nat.not_lt_zero _)
  | grantL1i _ hf hg hc =>
      exact phase_grant (lines_of_ctl hc rfl rfl rfl rfl) hm h' (congrArg L2Ctl.nState hc)
        (congrArg L2Ctl.nAddr hc) (congrArg L2Ctl.nSaveaddr hc) (congrArg L2Ctl.nTag hc)
        (congrArg L2Ctl.tIdx hc) (congrArg L2Ctl.nReload hc)
  | grantL1d _ hf hd hg hc =>
      exact phase_grant (lines_of_ctl hc rfl rfl rfl rfl) hm h' (congrArg L2Ctl.nState hc)
        (congrArg L2Ctl.nAddr hc) (congrArg L2Ctl.nSaveaddr hc) (congrArg L2Ctl.nTag hc)
        (congrArg L2Ctl.tIdx hc) (congrArg L2Ctl.nReload hc)
  | wait hw => simp [L2.Waiting, hs] at hw
  | _ => simp_all

theorem phase_check (hmr : s.l2.rMemReq = true ↔ s.l2.Waiting) (he : s.Env i)
    (h : s.l2.Phase s.below) (hop : s.l2.rOpcode = .lw ∨ s.l2.rOpcode = .sw)
    (hs : s.l2.rState = .checkValidAndTag) : (s.l2.step i).Phase (s.step i).below := by
  have hm := quiet_of_not_waiting hmr he (by simp [L2.Waiting, hs])
  obtain ⟨hsv, ha, hrd, hre⟩ : s.l2.Serves s.below ∧ s.l2.rAddr = blockAddr s.l2.rTag s.l2.rIdx ∧
      s.l2.Reads ∧ (s.l2.rReload = true → s.l2.lines.Hit s.l2.rTag s.l2.rIdx) := by
    simpa only [L2.Phase, hs] using h
  cases s.l2.move i with
  | hitLoad _ hh ho hc =>
      have hst : (s.l2.step i).rState = .idle := congrArg L2Ctl.nState hc
      have hl := lines_of_ctl hc rfl rfl rfl rfl
      simp only [L2.Phase, hst, hm]
      exact ⟨hl ▸ hsv.coherent, congrArg L2Ctl.nReload hc⟩
  | hitStore _ hh ho hc =>
      have hst : (s.l2.step i).rState = .waitStoreIdle := congrArg L2Ctl.nState hc
      have hl := L2.lines_hitStore (congrArg L2Ctl.tWrValid hc) (congrArg L2Ctl.tWrTag hc)
        (congrArg L2Ctl.tWrDirty hc) (congrArg L2Ctl.tDirty hc) (congrArg L2Ctl.tIdx hc)
        (congrArg L2Ctl.tWrD hc) (by rw [hc]; exact Function.update_self ..)
      simp only [L2.Phase, hst, hm]
      refine ⟨?_, congrArg L2Ctl.nReload hc⟩
      rw [hl]
      exact hsv.coherent.write ((L2.wHit_iff hrd).mp hh).1 _
  | hitOther _ hh ho hc => exact absurd hop (by simp [ho.1, ho.2])
  | missDirty _ hh hd hc =>
      have hst : (s.l2.step i).rState = .dirtyStore := congrArg L2Ctl.nState hc
      have hi : (s.l2.step i).rIdx = s.l2.rIdx := congrArg L2Ctl.tIdx hc
      have ht : (s.l2.step i).rTag = s.l2.rTag := congrArg L2Ctl.nTag hc
      have hl := lines_of_ctl hc rfl rfl rfl rfl
      have hda : (s.l2.step i).rMemReqStoreData = Block.ofBanks s.l2.wD :=
        congrArg L2Ctl.nMemReqStoreData hc
      have hdirty : s.l2.lines.dirty s.l2.rIdx = true := hrd.dirty.symm.trans hd
      simp only [L2.Phase, hst, hm, hi, hl, hda]
      refine ⟨⟨hl ▸ hsv.coherent, ?_⟩, congrArg L2Ctl.nMemOpcode hc,
        hsv.coherent.valid_of_dirty _ hdirty, ?_, ?_⟩
      · rw [hi, ht]
        exact (congrArg L2Ctl.nSaveaddr hc).trans hsv.saveaddr
      · rw [← hrd.tag]
        exact congrArg L2Ctl.nAddr hc
      · rw [bank_ofBanks, hrd.data]
  | missClean _ hh hd hc =>
      have hst : (s.l2.step i).rState = .cleanReload := congrArg L2Ctl.nState hc
      have hi : (s.l2.step i).rIdx = s.l2.rIdx := congrArg L2Ctl.tIdx hc
      have ht : (s.l2.step i).rTag = s.l2.rTag := congrArg L2Ctl.nTag hc
      have hl := lines_of_ctl hc rfl rfl rfl rfl
      have hclean : s.l2.lines.dirty s.l2.rIdx = false := hrd.dirty.symm.trans hd
      simp only [L2.Phase, hst, hm, hi, ht, hl]
      refine ⟨⟨hl ▸ hsv.coherent, ?_⟩, congrArg L2Ctl.nMemOpcode hc,
        (congrArg L2Ctl.nAddr hc).trans ha, hsv.coherent.synced _ hclean⟩
      rw [hi, ht]
      exact (congrArg L2Ctl.nSaveaddr hc).trans hsv.saveaddr
  | wait hw => simp [L2.Waiting, hs] at hw
  | _ => simp_all

theorem phase_wait (h : s.l2.Phase s.below) (hw : s.l2.Waiting) (hm : i.memRspValid = false)
    (hc : s.l2.ctl i = s.l2.dfltCtl i) : (s.l2.step i).Phase (s.step i).below := by
  have hb : (s.step i).below = s.below := step_below fun h => by rw [hm] at h; cases h
  have hst : (s.l2.step i).rState = s.l2.rState := congrArg L2Ctl.nState hc
  have hi : (s.l2.step i).rIdx = s.l2.rIdx := congrArg L2Ctl.tIdx hc
  have ht : (s.l2.step i).rTag = s.l2.rTag := congrArg L2Ctl.nTag hc
  have ha : (s.l2.step i).rAddr = s.l2.rAddr := congrArg L2Ctl.nAddr hc
  have hsa : (s.l2.step i).rSaveaddr = s.l2.rSaveaddr := congrArg L2Ctl.nSaveaddr hc
  have hr : (s.l2.step i).rReload = s.l2.rReload := congrArg L2Ctl.nReload hc
  have hmo : (s.l2.step i).rMemOpcode = s.l2.rMemOpcode := congrArg L2Ctl.nMemOpcode hc
  have hda : (s.l2.step i).rMemReqStoreData = s.l2.rMemReqStoreData :=
    congrArg L2Ctl.nMemReqStoreData hc
  have hl := lines_of_ctl hc rfl rfl rfl rfl
  have hcl : ∀ j, s.l2.Cleared j → (s.l2.step i).Cleared j := fun j => L2.cleared_of_lines hl
  have hserves : s.l2.Serves s.below → (s.l2.step i).Serves s.below := fun hsv =>
    ⟨hl ▸ hsv.coherent, by rw [hsa, ht, hi]; exact hsv.saveaddr⟩
  have hrests : s.l2.Rests s.below → (s.l2.step i).Rests s.below := fun hsv =>
    ⟨hl ▸ hsv.coherent, hr.trans hsv.reload⟩
  rcases hw with hs | hs | hs
  · simp only [L2.Phase, hs, hst, hb, hi, hl, ha, hmo, hda] at h ⊢
    exact ⟨hserves h.1, h.2⟩
  · simp only [L2.Phase, hs, hst, hb, hi, ht, hl, ha, hmo] at h ⊢
    exact ⟨hserves h.1, h.2⟩
  · simp only [L2.Phase, hs, hst, hb, hi, ha, hmo] at h ⊢
    exact ⟨hrests h.1, fun j hj => hcl j (h.2.1 j hj), h.2.2⟩

/-- The reload path: write back, turn around, load, settle. -/
theorem phase_reload (hmr : s.l2.rMemReq = true ↔ s.l2.Waiting) (he : s.Env i)
    (h : s.l2.Phase s.below)
    (hs : s.l2.rState = .dirtyStore ∨ s.l2.rState = .storeTurnaround ∨
      s.l2.rState = .cleanReload ∨ s.l2.rState = .waitCleanReload) :
    (s.l2.step i).Phase (s.step i).below := by
  have hn : ¬(s.l2.rState = .flushStore) := by rcases hs with hs | hs | hs | hs <;> simp [hs]
  cases s.l2.move i with
  | wait hw hm hc => exact phase_wait h hw hm hc
  | wroteBack hs hm hc =>
      have hst : (s.l2.step i).rState = .storeTurnaround := congrArg L2Ctl.nState hc
      have hi : (s.l2.step i).rIdx = s.l2.rIdx := congrArg L2Ctl.tIdx hc
      have ht : (s.l2.step i).rTag = s.l2.rTag := congrArg L2Ctl.nTag hc
      have hl := lines_of_ctl hc rfl rfl rfl rfl
      obtain ⟨hsv, hmo, hv, ha, hda⟩ : s.l2.Serves s.below ∧ s.l2.rMemOpcode = .sw ∧
          s.l2.lines.valid s.l2.rIdx = true ∧
          s.l2.rAddr = blockAddr (s.l2.lines.tag s.l2.rIdx) s.l2.rIdx ∧
          s.l2.rMemReqStoreData.bank = s.l2.lines.data s.l2.rIdx := by
        simpa only [L2.Phase, hs] using h
      have hb := step_below_store hm hmo ha
      rw [hda] at hb
      simp only [L2.Phase, hst, hb, hi, ht, hl]
      refine ⟨⟨?_, ?_⟩, congrArg L2Ctl.nMemOpcode hc, ?_, Lines.synced_writeBack _ _ _⟩
      · rw [hl]
        exact hsv.coherent.writeBack _
      · rw [hi, ht]
        exact (congrArg L2Ctl.nSaveaddr hc).trans hsv.saveaddr
      · exact (congrArg L2Ctl.nAddr hc).trans hsv.saveaddr
  | turn hs hc =>
      have hm := quiet_of_not_waiting hmr he (by simp [L2.Waiting, hs])
      have hst : (s.l2.step i).rState = .cleanReload := congrArg L2Ctl.nState hc
      have hi : (s.l2.step i).rIdx = s.l2.rIdx := congrArg L2Ctl.tIdx hc
      have ht : (s.l2.step i).rTag = s.l2.rTag := congrArg L2Ctl.nTag hc
      have hsa : (s.l2.step i).rSaveaddr = s.l2.rSaveaddr := congrArg L2Ctl.nSaveaddr hc
      have hl := lines_of_ctl hc rfl rfl rfl rfl
      simp only [L2.Phase, hs, hst, hm, hi, ht, hl] at h ⊢
      obtain ⟨hsv, hmo, ha, hsy⟩ := h
      exact ⟨⟨hl ▸ hsv.coherent, by rw [hsa, hi, ht]; exact hsv.saveaddr⟩,
        (congrArg L2Ctl.nMemOpcode hc).trans hmo, (congrArg L2Ctl.nAddr hc).trans ha, hsy⟩
  | loaded hs hm hc =>
      have hst : (s.l2.step i).rState = .waitCleanReload := congrArg L2Ctl.nState hc
      have hi : (s.l2.step i).rIdx = s.l2.rIdx := congrArg L2Ctl.tIdx hc
      have ht : (s.l2.step i).rTag = s.l2.rTag := congrArg L2Ctl.nTag hc
      obtain ⟨hsv, hmo, ha, hsy⟩ : s.l2.Serves s.below ∧ s.l2.rMemOpcode = .lw ∧
          s.l2.rAddr = blockAddr s.l2.rTag s.l2.rIdx ∧
          s.l2.lines.Synced s.below s.l2.rIdx := by
        simpa only [L2.Phase, hs] using h
      have hb : (s.step i).below = s.below := step_below fun _ => hmo
      have hl := L2.lines_loaded (congrArg L2Ctl.tWrValid hc) (congrArg L2Ctl.tValid hc)
        (congrArg L2Ctl.tWrTag hc) (congrArg L2Ctl.tWrDirty hc) (congrArg L2Ctl.tIdx hc)
        (congrArg L2Ctl.tWrD hc) (congrArg L2Ctl.tD hc)
      rw [he.load_eq hm hmo ha] at hl
      simp only [L2.Phase, hst, hb, hi, ht]
      refine ⟨⟨?_, ?_⟩, (congrArg L2Ctl.nAddr hc).trans ha, ?_⟩
      · rw [hl]
        exact hsv.coherent.fill _ _ _
      · rw [hi, ht]
        exact (congrArg L2Ctl.nSaveaddr hc).trans hsv.saveaddr
      · rw [hl]
        exact ⟨Function.update_self .., Function.update_self ..⟩
  | settle hs hc =>
      have hm := quiet_of_not_waiting hmr he (by simp [L2.Waiting, hs])
      have hst : (s.l2.step i).rState = .checkValidAndTag := congrArg L2Ctl.nState hc
      have hi : (s.l2.step i).rIdx = s.l2.rIdx := congrArg L2Ctl.tIdx hc
      have ht : (s.l2.step i).rTag = s.l2.rTag := congrArg L2Ctl.nTag hc
      have hsa : (s.l2.step i).rSaveaddr = s.l2.rSaveaddr := congrArg L2Ctl.nSaveaddr hc
      have hl := lines_of_ctl hc rfl rfl rfl rfl
      simp only [L2.Phase, hs, hst, hm, hi, ht, hl] at h ⊢
      obtain ⟨hsv, ha, hh⟩ := h
      exact ⟨⟨hl ▸ hsv.coherent, by rw [hsa, hi, ht]; exact hsv.saveaddr⟩,
        (congrArg L2Ctl.nAddr hc).trans ha, L2.reads_step hl, fun _ => hh⟩
  | _ => simp_all

theorem phase_nextSet {c : L2Ctl} (hc : s.l2.ctl i = s.l2.nextSet c)
    (hl : (s.l2.step i).lines = s.l2.lines) (hco : s.l2.lines.Coherent (s.step i).below)
    (hr : c.nReload = false) (hcl : ∀ j, j ≤ s.l2.rIdx → s.l2.Cleared j) :
    (s.l2.step i).Phase (s.step i).below := by
  have hst : (s.l2.step i).rState = if s.l2.atLast then .idle else .flushWait :=
    congrArg L2Ctl.nState hc
  have hi : (s.l2.step i).rIdx = s.l2.rIdx + 1 := congrArg L2Ctl.tIdx hc
  have hr' : (s.l2.step i).Rests (s.step i).below :=
    ⟨hl ▸ hco, (congrArg L2Ctl.nReload hc).trans hr⟩
  cases ha : s.l2.atLast with
  | true =>
      rw [ha, if_pos rfl] at hst
      simpa only [L2.Phase, hst] using hr'
  | false =>
      rw [ha, if_neg Bool.false_ne_true] at hst
      simp only [L2.Phase, hst, hi]
      refine ⟨hr', fun j hj => L2.cleared_of_lines hl (hcl j ?_)⟩
      have hne : s.l2.rIdx ≠ 16383 := of_decide_eq_false ha
      bv_omega

theorem phase_flush (hmr : s.l2.rMemReq = true ↔ s.l2.Waiting) (he : s.Env i)
    (h : s.l2.Phase s.below)
    (hs : s.l2.rState = .flushWait ∨ s.l2.rState = .flushTriage ∨ s.l2.rState = .flushStore) :
    (s.l2.step i).Phase (s.step i).below := by
  cases s.l2.move i with
  | wait hw hm hc => exact phase_wait h hw hm hc
  | drop hs hc =>
      have hm := quiet_of_not_waiting hmr he (by simp [L2.Waiting, hs])
      have hst : (s.l2.step i).rState = .flushTriage := congrArg L2Ctl.nState hc
      have hi : (s.l2.step i).rIdx = s.l2.rIdx := congrArg L2Ctl.tIdx hc
      have hl := L2.lines_drop (congrArg L2Ctl.tWrValid hc) (congrArg L2Ctl.tValid hc)
        (congrArg L2Ctl.tWrDirty hc) (congrArg L2Ctl.tDirty hc) (congrArg L2Ctl.tWrTag hc)
        (congrArg L2Ctl.tIdx hc) (congrArg L2Ctl.tWrD hc)
      obtain ⟨hr, hcl⟩ : s.l2.Rests s.below ∧ ∀ j, j < s.l2.rIdx → s.l2.Cleared j := by
        simpa only [L2.Phase, hs] using h
      have hwv : (s.l2.step i).wValid = s.l2.lines.valid s.l2.rIdx :=
        congrArg s.l2.validRam (congrArg L2Ctl.tIdx hc)
      have hwd : (s.l2.step i).wDirty = s.l2.lines.dirty s.l2.rIdx :=
        congrArg s.l2.dirtyRam (congrArg L2Ctl.tIdx hc)
      have hwt : (s.l2.step i).wTag = s.l2.lines.tag s.l2.rIdx :=
        congrArg s.l2.tagRam (congrArg L2Ctl.tIdx hc)
      have hwD : (s.l2.step i).wD = s.l2.lines.data s.l2.rIdx :=
        congrArg (fun j b => s.l2.dataRam b j) (congrArg L2Ctl.tIdx hc)
      simp only [L2.Phase, hst, hm, hi, hwv, hwd, hwt, hwD]
      refine ⟨⟨?_, (congrArg L2Ctl.nReload hc).trans hr.reload⟩, fun j hj => ?_, ?_⟩
      · rw [hl]
        exact hr.coherent.drop _
      · refine L2.cleared_drop hl j ?_
        by_cases heq : j = s.l2.rIdx
        · exact .inl heq
        · exact .inr (hcl j (by bv_omega))
      · exact fun hv hd => hr.coherent.synced _ hd hv
  | triageDirty hs hd hc =>
      have hm := quiet_of_not_waiting hmr he (by simp [L2.Waiting, hs])
      have hst : (s.l2.step i).rState = .flushStore := congrArg L2Ctl.nState hc
      have hi : (s.l2.step i).rIdx = s.l2.rIdx := congrArg L2Ctl.tIdx hc
      have hl := lines_of_ctl hc rfl rfl rfl rfl
      simp only [L2.Phase, hs, hst, hm, hi] at h ⊢
      obtain ⟨hr, hcl, -⟩ := h
      exact ⟨⟨hl ▸ hr.coherent, (congrArg L2Ctl.nReload hc).trans hr.reload⟩,
        fun j hj => L2.cleared_of_lines hl (hcl j hj), congrArg L2Ctl.nMemOpcode hc,
        _, congrArg L2Ctl.nAddr hc⟩
  | triageClean hs hd hc =>
      have hm := quiet_of_not_waiting hmr he (by simp [L2.Waiting, hs])
      simp only [L2.Phase, hs] at h
      exact phase_nextSet hc (lines_of_ctl hc rfl rfl rfl rfl) (hm ▸ h.1.coherent) h.1.reload h.2.1
  | flushed hs hm hc =>
      simp only [L2.Phase, hs] at h
      obtain ⟨hr, hcl, hmo, t, ha⟩ := h
      refine phase_nextSet hc (lines_of_ctl hc rfl rfl rfl rfl) ?_ hr.reload hcl
      rw [step_below_store hm hmo ha]
      exact hr.coherent.put (hcl _ (BitVec.le_refl _)).1 _ _
  | _ => simp_all

/-- INITIALIZE clears the sets one after the other; the last is set 0. -/
theorem phase_initialise (hmr : s.l2.rMemReq = true ↔ s.l2.Waiting) (he : s.Env i)
    (h : s.l2.Phase s.below) (hs : s.l2.rState = .initialise) :
    (s.l2.step i).Phase (s.step i).below := by
  cases s.l2.move i with
  | walk _ hc =>
      have hm := quiet_of_not_waiting hmr he (by simp [L2.Waiting, hs])
      have hst : (s.l2.step i).rState = if s.l2.atLast then .idle else .initialise :=
        congrArg L2Ctl.nState hc
      have hi : (s.l2.step i).rIdx = s.l2.rIdx + 1 := congrArg L2Ctl.tIdx hc
      obtain ⟨hr, hcl⟩ : s.l2.rReload = false ∧
          ∀ j, 0 < j → j ≤ s.l2.rIdx → s.l2.Cleared j := by simpa only [L2.Phase, hs] using h
      have hr' : (s.l2.step i).rReload = false := (congrArg L2Ctl.nReload hc).trans hr
      cases ha : s.l2.atLast with
      | true =>
          rw [ha, if_pos rfl] at hst
          simp only [L2.Phase, hst]
          exact ⟨L2.coherent_of_cleared (L2.cleared_last (congrArg L2Ctl.tWrValid hc)
            (congrArg L2Ctl.tValid hc) (congrArg L2Ctl.tWrDirty hc) (congrArg L2Ctl.tDirty hc)
            (congrArg L2Ctl.tIdx hc) ha hcl), hr'⟩
      | false =>
          rw [ha, if_neg Bool.false_ne_true] at hst
          have hne : s.l2.rIdx ≠ 16383 := of_decide_eq_false ha
          simp only [L2.Phase, hst, hi]
          refine ⟨hr', fun j hj0 hj => L2.cleared_walk (congrArg L2Ctl.tWrValid hc)
            (congrArg L2Ctl.tValid hc) (congrArg L2Ctl.tWrDirty hc) (congrArg L2Ctl.tDirty hc)
            (congrArg L2Ctl.tIdx hc) j ?_⟩
          by_cases hje : j = s.l2.rIdx + 1
          · exact .inl hje
          · exact .inr (hcl j hj0 (by bv_omega))
  | wait hw => simp [L2.Waiting, hs] at hw
  | _ => simp_all

/-- **Every cycle keeps the phases.** -/
theorem phase_step (hmr : s.l2.rMemReq = true ↔ s.l2.Waiting) (he : s.Env i)
    (hop : s.l2.serving = true → s.l2.rOpcode = .lw ∨ s.l2.rOpcode = .sw)
    (h : s.l2.Phase s.below) : (s.l2.step i).Phase (s.step i).below := by
  cases hs : s.l2.rState with
  | initialise => exact phase_initialise hmr he h hs
  | idle => exact phase_idle hmr he h hs
  | checkValidAndTag => exact phase_check hmr he h (hop (by rw [L2.serving, hs])) hs
  | dirtyStore => exact phase_reload hmr he h (.inl hs)
  | storeTurnaround => exact phase_reload hmr he h (.inr (.inl hs))
  | cleanReload => exact phase_reload hmr he h (.inr (.inr (.inl hs)))
  | waitCleanReload => exact phase_reload hmr he h (.inr (.inr (.inr hs)))
  | flushWait => exact phase_flush hmr he h (.inl hs)
  | flushTriage => exact phase_flush hmr he h (.inr (.inl hs))
  | flushStore => exact phase_flush hmr he h (.inr (.inr hs))
  | waitStoreIdle =>
      cases s.l2.move i with
      | written _ hc =>
          have hm := quiet_of_not_waiting hmr he (by simp [L2.Waiting, hs])
          have hst : (s.l2.step i).rState = .idle := congrArg L2Ctl.nState hc
          have hl := lines_of_ctl hc rfl rfl rfl rfl
          have h' : s.l2.Rests s.below := by simpa only [L2.Phase, hs] using h
          simp only [L2.Phase, hst, hm]
          exact ⟨hl ▸ h'.coherent, (congrArg L2Ctl.nReload hc).trans h'.reload⟩
      | wait hw => simp [L2.Waiting, hs] at hw
      | _ => simp_all

theorem phase_initial {s : L2Sys} (h : l2System.reset s) : s.l2.Phase s.below := by
  obtain ⟨⟨p, hp⟩, -⟩ := h
  rw [hp]
  exact ⟨rfl, fun j h0 hj => absurd hj (by simp only [L2.init]; bv_omega)⟩

end L2Sys

/-! ### The memory presented -/

namespace L2

variable {s : L2} {i : L2In} {m m' : Lower}

theorem logical_resting (h : s.rState = .idle ∨ s.rState = .waitStoreIdle ∨
    s.rState = .flushWait) : s.logical m = s.lines.view m := by
  unfold logical pendingStore serving
  rcases h with hs | hs | hs <;> simp [hs]

theorem logical_serving (h : s.serving = true) : s.logical m =
    if s.rOpcode = .sw then
      put (s.lines.view m) s.rTag s.rIdx (s.storedLine (s.lines.view m s.rTag s.rIdx))
    else s.lines.view m := by
  unfold logical pendingStore
  unfold serving at h ⊢
  split at h
  all_goals simp_all

/-- While a request is served the memory presented changes only with what is seen through the
cache. -/
theorem logical_congr (h : s.serving = true) (h' : (s.step i).serving = true)
    (hv : (s.step i).lines.view m' = s.lines.view m) :
    (s.step i).logical m' = s.logical m := by
  have hr := s.step_request i h
  have ht : (s.step i).rTag = s.rTag := congrArg (·.1) hr
  have hi : (s.step i).rIdx = s.rIdx := congrArg (·.2.1) hr
  have hb : (s.step i).rBank = s.rBank := congrArg (·.2.2.1) hr
  have ho : (s.step i).rOpcode = s.rOpcode := congrArg (·.2.2.2.1) hr
  have hd : (s.step i).rStoreData = s.rStoreData := congrArg (·.2.2.2.2) hr
  rw [logical_serving h, logical_serving h', hv, ht, hi, ho]
  simp only [storedLine, hb, hd]

end L2

namespace L2Sys

variable {s : L2Sys} {i : L2In}

theorem logical_idle (hmr : s.l2.rMemReq = true ↔ s.l2.Waiting) (he : s.Env i)
    (hs : s.l2.rState = .idle) : (s.l2.step i).logical (s.step i).below =
      if s.l2.grantsL1d i = true ∧ i.l1dOpcode = .sw then
        put (s.l2.logical s.below) (l2TagOf i.l1dAddr) (l2IdxOf i.l1dAddr)
          (Function.update (s.l2.logical s.below (l2TagOf i.l1dAddr) (l2IdxOf i.l1dAddr))
            (bankOf i.l1dAddr) i.l1MemReqStoreData)
      else s.l2.logical s.below := by
  have hm := quiet_of_not_waiting hmr he (by simp [L2.Waiting, hs])
  rw [L2.logical_resting (.inl hs)]
  cases s.l2.move i with
  | rest _ hf hd hi hc =>
      have hst : (s.l2.step i).rState = .idle := (congrArg L2Ctl.nState hc).trans hs
      rw [if_neg (by simp [L2.grantsL1d, hd]), L2.logical_resting (.inl hst), hm,
        lines_of_ctl hc rfl rfl rfl rfl]
  | flush _ hf hc =>
      have hst : (s.l2.step i).rState = .flushWait := congrArg L2Ctl.nState hc
      rw [if_neg (by simp [L2.grantsL1d, hf]), L2.logical_resting (.inr (.inr hst)), hm,
        lines_of_ctl hc rfl rfl rfl rfl]
  | grantL1i _ hf hg hc =>
      have hst : (s.l2.step i).rState = .checkValidAndTag := congrArg L2Ctl.nState hc
      have ho : (s.l2.step i).rOpcode = .lw := congrArg L2Ctl.nOpcode hc
      rw [if_neg (by simp [L2.grantsL1d, hg]), L2.logical_serving (by rw [L2.serving, hst]),
        if_neg (by rw [ho]; decide), hm, lines_of_ctl hc rfl rfl rfl rfl]
  | grantL1d _ hf hd hg hc =>
      have hgr : s.l2.grantsL1d i = true := by simp [L2.grantsL1d, hs, hf, hd, hg]
      have hst : (s.l2.step i).rState = .checkValidAndTag := congrArg L2Ctl.nState hc
      have hr := s.l2.step_request_l1d i hgr
      have ht : (s.l2.step i).rTag = l2TagOf i.l1dAddr := congrArg (·.1) hr
      have hi : (s.l2.step i).rIdx = l2IdxOf i.l1dAddr := congrArg (·.2.1) hr
      have hb : (s.l2.step i).rBank = bankOf i.l1dAddr := congrArg (·.2.2.1) hr
      have ho : (s.l2.step i).rOpcode = i.l1dOpcode := congrArg (·.2.2.2.1) hr
      have hda : (s.l2.step i).rStoreData = i.l1MemReqStoreData := congrArg (·.2.2.2.2) hr
      rw [L2.logical_serving (by rw [L2.serving, hst]), hm, lines_of_ctl hc rfl rfl rfl rfl, ho,
        ht, hi, L2.storedLine, hb, hda]
      by_cases hw : i.l1dOpcode = .sw
      · rw [if_pos hw, if_pos ⟨hgr, hw⟩]
      · rw [if_neg hw, if_neg fun h => hw h.2]
  | wait hw => simp [L2.Waiting, hs] at hw
  | _ => simp_all

theorem logical_check (hmr : s.l2.rMemReq = true ↔ s.l2.Waiting) (he : s.Env i)
    (h : s.l2.Phase s.below) (hop : s.l2.rOpcode = .lw ∨ s.l2.rOpcode = .sw)
    (hs : s.l2.rState = .checkValidAndTag) :
    (s.l2.step i).logical (s.step i).below = s.l2.logical s.below := by
  have hm := quiet_of_not_waiting hmr he (by simp [L2.Waiting, hs])
  have hsv : s.l2.serving = true := by rw [L2.serving, hs]
  have hrd : s.l2.Reads := by
    simp only [L2.Phase, hs] at h
    exact h.2.2.1
  cases s.l2.move i with
  | hitLoad _ hh ho hc =>
      have hst : (s.l2.step i).rState = .idle := congrArg L2Ctl.nState hc
      rw [L2.logical_resting (.inl hst), L2.logical_serving hsv, if_neg (by rw [ho]; decide), hm,
        lines_of_ctl hc rfl rfl rfl rfl]
  | hitStore _ hh ho hc =>
      have hst : (s.l2.step i).rState = .waitStoreIdle := congrArg L2Ctl.nState hc
      have hl := L2.lines_hitStore (congrArg L2Ctl.tWrValid hc) (congrArg L2Ctl.tWrTag hc)
        (congrArg L2Ctl.tWrDirty hc) (congrArg L2Ctl.tDirty hc) (congrArg L2Ctl.tIdx hc)
        (congrArg L2Ctl.tWrD hc) (by rw [hc]; exact Function.update_self ..)
      have hhit := (L2.wHit_iff hrd).mp hh
      rw [L2.logical_resting (.inr (.inl hst)), L2.logical_serving hsv, if_pos ho, hm, hl,
        Lines.view_write hhit, Lines.view_hit hhit]
  | hitOther _ hh ho hc => exact absurd hop (by simp [ho.1, ho.2])
  | missDirty _ hh hd hc =>
      have hst : (s.l2.step i).rState = .dirtyStore := congrArg L2Ctl.nState hc
      refine L2.logical_congr hsv (by rw [L2.serving, hst]) ?_
      rw [hm, lines_of_ctl hc rfl rfl rfl rfl]
  | missClean _ hh hd hc =>
      have hst : (s.l2.step i).rState = .cleanReload := congrArg L2Ctl.nState hc
      refine L2.logical_congr hsv (by rw [L2.serving, hst]) ?_
      rw [hm, lines_of_ctl hc rfl rfl rfl rfl]
  | wait hw => simp [L2.Waiting, hs] at hw
  | _ => simp_all

theorem logical_reload (hmr : s.l2.rMemReq = true ↔ s.l2.Waiting) (he : s.Env i)
    (h : s.l2.Phase s.below)
    (hs : s.l2.rState = .dirtyStore ∨ s.l2.rState = .storeTurnaround ∨
      s.l2.rState = .cleanReload ∨ s.l2.rState = .waitCleanReload) :
    (s.l2.step i).logical (s.step i).below = s.l2.logical s.below := by
  have hsv : s.l2.serving = true := by rcases hs with hs | hs | hs | hs <;> rw [L2.serving, hs]
  cases s.l2.move i with
  | wait hw hm hc =>
      have hst : (s.l2.step i).rState = s.l2.rState := congrArg L2Ctl.nState hc
      refine L2.logical_congr hsv (by rw [L2.serving, hst]; exact hsv) ?_
      rw [lines_of_ctl hc rfl rfl rfl rfl, step_below fun h => by rw [hm] at h; cases h]
  | wroteBack hs hm hc =>
      have hst : (s.l2.step i).rState = .storeTurnaround := congrArg L2Ctl.nState hc
      obtain ⟨-, hmo, hv, ha, hda⟩ : s.l2.Serves s.below ∧ s.l2.rMemOpcode = .sw ∧
          s.l2.lines.valid s.l2.rIdx = true ∧
          s.l2.rAddr = blockAddr (s.l2.lines.tag s.l2.rIdx) s.l2.rIdx ∧
          s.l2.rMemReqStoreData.bank = s.l2.lines.data s.l2.rIdx := by
        simpa only [L2.Phase, hs] using h
      refine L2.logical_congr hsv (by rw [L2.serving, hst]) ?_
      rw [lines_of_ctl hc rfl rfl rfl rfl, step_below_store hm hmo ha, hda,
        Lines.view_writeBack hv]
  | turn hs hc =>
      have hst : (s.l2.step i).rState = .cleanReload := congrArg L2Ctl.nState hc
      refine L2.logical_congr hsv (by rw [L2.serving, hst]) ?_
      rw [lines_of_ctl hc rfl rfl rfl rfl,
        quiet_of_not_waiting hmr he (by simp [L2.Waiting, hs])]
  | loaded hs hm hc =>
      have hst : (s.l2.step i).rState = .waitCleanReload := congrArg L2Ctl.nState hc
      obtain ⟨-, hmo, ha, hsy⟩ : s.l2.Serves s.below ∧ s.l2.rMemOpcode = .lw ∧
          s.l2.rAddr = blockAddr s.l2.rTag s.l2.rIdx ∧
          s.l2.lines.Synced s.below s.l2.rIdx := by
        simpa only [L2.Phase, hs] using h
      have hl := L2.lines_loaded (congrArg L2Ctl.tWrValid hc) (congrArg L2Ctl.tValid hc)
        (congrArg L2Ctl.tWrTag hc) (congrArg L2Ctl.tWrDirty hc) (congrArg L2Ctl.tIdx hc)
        (congrArg L2Ctl.tWrD hc) (congrArg L2Ctl.tD hc)
      rw [he.load_eq hm hmo ha] at hl
      refine L2.logical_congr hsv (by rw [L2.serving, hst]) ?_
      rw [hl, step_below fun _ => hmo, Lines.view_fill hsy]
  | settle hs hc =>
      have hst : (s.l2.step i).rState = .checkValidAndTag := congrArg L2Ctl.nState hc
      refine L2.logical_congr hsv (by rw [L2.serving, hst]) ?_
      rw [lines_of_ctl hc rfl rfl rfl rfl,
        quiet_of_not_waiting hmr he (by simp [L2.Waiting, hs])]
  | _ => simp_all

theorem logical_nextSet {c : L2Ctl} (hc : s.l2.ctl i = s.l2.nextSet c) (m : Lower) :
    (s.l2.step i).logical m = (s.l2.step i).lines.view m := by
  have hst : (s.l2.step i).rState = if s.l2.atLast then .idle else .flushWait :=
    congrArg L2Ctl.nState hc
  cases ha : s.l2.atLast with
  | true => exact L2.logical_resting (.inl (by rw [hst, ha]; rfl))
  | false => exact L2.logical_resting (.inr (.inr (by rw [hst, ha]; rfl)))

theorem logical_flush (hmr : s.l2.rMemReq = true ↔ s.l2.Waiting) (he : s.Env i)
    (h : s.l2.Phase s.below)
    (hs : s.l2.rState = .flushWait ∨ s.l2.rState = .flushTriage ∨ s.l2.rState = .flushStore) :
    (s.l2.step i).logical (s.step i).below = s.l2.logical s.below := by
  cases s.l2.move i with
  | wait hw hm hc =>
      have hs' : s.l2.rState = .flushStore := by
        rcases hw with hw | hw | hw
        · simp [hw] at hs
        · simp [hw] at hs
        · exact hw
      have hst : (s.l2.step i).rState = .flushStore := (congrArg L2Ctl.nState hc).trans hs'
      have hi : (s.l2.step i).rIdx = s.l2.rIdx := congrArg L2Ctl.tIdx hc
      have ha : (s.l2.step i).rAddr = s.l2.rAddr := congrArg L2Ctl.nAddr hc
      have hda : (s.l2.step i).rMemReqStoreData = s.l2.rMemReqStoreData :=
        congrArg L2Ctl.nMemReqStoreData hc
      simp only [L2.logical, hs', hst, hi, ha, hda]
      rw [lines_of_ctl hc rfl rfl rfl rfl, step_below fun h => by rw [hm] at h; cases h]
  | drop hs hc =>
      have hm := quiet_of_not_waiting hmr he (by simp [L2.Waiting, hs])
      have hst : (s.l2.step i).rState = .flushTriage := congrArg L2Ctl.nState hc
      have hi : (s.l2.step i).rIdx = s.l2.rIdx := congrArg L2Ctl.tIdx hc
      have hl := L2.lines_drop (congrArg L2Ctl.tWrValid hc) (congrArg L2Ctl.tValid hc)
        (congrArg L2Ctl.tWrDirty hc) (congrArg L2Ctl.tDirty hc) (congrArg L2Ctl.tWrTag hc)
        (congrArg L2Ctl.tIdx hc) (congrArg L2Ctl.tWrD hc)
      have hco : s.l2.lines.Coherent s.below := by
        simp only [L2.Phase, hs] at h
        exact h.1.coherent
      have hwv : (s.l2.step i).wValid = s.l2.lines.valid s.l2.rIdx :=
        congrArg s.l2.validRam (congrArg L2Ctl.tIdx hc)
      have hwd : (s.l2.step i).wDirty = s.l2.lines.dirty s.l2.rIdx :=
        congrArg s.l2.dirtyRam (congrArg L2Ctl.tIdx hc)
      have hwt : (s.l2.step i).wTag = s.l2.lines.tag s.l2.rIdx :=
        congrArg s.l2.tagRam (congrArg L2Ctl.tIdx hc)
      have hwD : (s.l2.step i).wD = s.l2.lines.data s.l2.rIdx :=
        congrArg (fun j b => s.l2.dataRam b j) (congrArg L2Ctl.tIdx hc)
      rw [L2.logical_resting (.inr (.inr hs))]
      simp only [L2.logical, hst, hm, hi, L2.wNeedWb, hwv, hwd, hwt, hwD, hl]
      -- the line that FLUSH_TRIAGE still has to write back stays in the picture
      cases hv : s.l2.lines.valid s.l2.rIdx with
      | true =>
          cases hd : s.l2.lines.dirty s.l2.rIdx with
          | true => simpa using Lines.put_view_drop hv
          | false => simpa using Lines.view_drop (hco.synced _ hd)
      | false => simpa using Lines.view_drop (.of_invalid hv)
  | triageDirty hs hd hc =>
      have hm := quiet_of_not_waiting hmr he (by simp [L2.Waiting, hs])
      have hst : (s.l2.step i).rState = .flushStore := congrArg L2Ctl.nState hc
      have hi : (s.l2.step i).rIdx = s.l2.rIdx := congrArg L2Ctl.tIdx hc
      have ha : (s.l2.step i).rAddr = blockAddr s.l2.wTag s.l2.rIdx := congrArg L2Ctl.nAddr hc
      have hda : (s.l2.step i).rMemReqStoreData = Block.ofBanks s.l2.wD :=
        congrArg L2Ctl.nMemReqStoreData hc
      simp only [L2.logical, hs, hst, hi, ha, hda, hm, hd]
      rw [lines_of_ctl hc rfl rfl rfl rfl, l2TagOf_blockAddr, bank_ofBanks, if_pos trivial]
  | triageClean hs hd hc =>
      have hm := quiet_of_not_waiting hmr he (by simp [L2.Waiting, hs])
      rw [logical_nextSet hc, hm, lines_of_ctl hc rfl rfl rfl rfl]
      simp only [L2.logical, hs, hd, Bool.false_eq_true, if_false]
  | flushed hs hm hc =>
      rw [logical_nextSet hc, lines_of_ctl hc rfl rfl rfl rfl]
      simp only [L2.Phase, hs] at h
      obtain ⟨-, hcl, hmo, t, ha⟩ := h
      simp only [L2.logical, hs]
      rw [step_below_store hm hmo ha, ha, l2TagOf_blockAddr]
      exact (Lines.put_view (hcl _ (BitVec.le_refl _)).1 _ _).symm
  | _ => simp_all

/-- **A cycle changes the memory presented exactly by the store it acknowledges.** -/
theorem logical_step (hmr : s.l2.rMemReq = true ↔ s.l2.Waiting) (he : s.Env i)
    (hop : s.l2.serving = true → s.l2.rOpcode = .lw ∨ s.l2.rOpcode = .sw)
    (h : s.l2.Phase s.below) : (s.l2.step i).logical (s.step i).below =
      if s.l2.grantsL1d i = true ∧ i.l1dOpcode = .sw then
        put (s.l2.logical s.below) (l2TagOf i.l1dAddr) (l2IdxOf i.l1dAddr)
          (Function.update (s.l2.logical s.below (l2TagOf i.l1dAddr) (l2IdxOf i.l1dAddr))
            (bankOf i.l1dAddr) i.l1MemReqStoreData)
      else s.l2.logical s.below := by
  by_cases hid : s.l2.rState = .idle
  · exact logical_idle hmr he hid
  have hno : ¬(s.l2.grantsL1d i = true ∧ i.l1dOpcode = .sw) := by
    rintro ⟨hg, -⟩
    simp only [L2.grantsL1d, Bool.and_eq_true, decide_eq_true_eq] at hg
    exact hid hg.1
  rw [if_neg hno]
  cases hs : s.l2.rState with
  | idle => exact absurd hs hid
  | initialise =>
      cases s.l2.move i with
      | walk _ hc =>
          have hm := quiet_of_not_waiting hmr he (by simp [L2.Waiting, hs])
          have hst : (s.l2.step i).rState = if s.l2.atLast then .idle else .initialise :=
            congrArg L2Ctl.nState hc
          have h0 : s.l2.logical s.below = s.below := by simp only [L2.logical, hs]
          rw [h0, hm]
          cases ha : s.l2.atLast with
          | true =>
              have hcl : ∀ j, 0 < j → j ≤ s.l2.rIdx → s.l2.Cleared j := by
                simp only [L2.Phase, hs] at h
                exact h.2
              rw [L2.logical_resting (.inl (by rw [hst, ha]; rfl))]
              exact Lines.view_of_invalid fun j => (L2.cleared_last (congrArg L2Ctl.tWrValid hc)
                (congrArg L2Ctl.tValid hc) (congrArg L2Ctl.tWrDirty hc)
                (congrArg L2Ctl.tDirty hc) (congrArg L2Ctl.tIdx hc) ha hcl j).1
          | false =>
              rw [ha, if_neg Bool.false_ne_true] at hst
              simp only [L2.logical, hst]
      | wait hw => simp [L2.Waiting, hs] at hw
      | _ => simp_all
  | checkValidAndTag => exact logical_check hmr he h (hop (by rw [L2.serving, hs])) hs
  | dirtyStore => exact logical_reload hmr he h (.inl hs)
  | storeTurnaround => exact logical_reload hmr he h (.inr (.inl hs))
  | cleanReload => exact logical_reload hmr he h (.inr (.inr (.inl hs)))
  | waitCleanReload => exact logical_reload hmr he h (.inr (.inr (.inr hs)))
  | flushWait => exact logical_flush hmr he h (.inl hs)
  | flushTriage => exact logical_flush hmr he h (.inr (.inl hs))
  | flushStore => exact logical_flush hmr he h (.inr (.inr hs))
  | waitStoreIdle =>
      cases s.l2.move i with
      | written _ hc =>
          have hst : (s.l2.step i).rState = .idle := congrArg L2Ctl.nState hc
          rw [L2.logical_resting (.inl hst), L2.logical_resting (.inr (.inl hs)),
            lines_of_ctl hc rfl rfl rfl rfl,
            quiet_of_not_waiting hmr he (by simp [L2.Waiting, hs])]
      | wait hw => simp [L2.Waiting, hs] at hw
      | _ => simp_all

/-! ### What the clients expect -/

/-- What the clients expect, by tag and set. -/
def above (s : L2Sys) : Lower := fun t j b => s.contents (t ++ j ++ b)

theorem above_apply (s : L2Sys) (a : Word) :
    s.above (l2TagOf a) (l2IdxOf a) (bankOf a) = s.contents (lineNo a) := by
  rw [above, lineNo_eq]

theorem Sides.step_contents (h : s.Sides) (he : s.Env i) : (s.step i).contents =
    if s.l2.grantsL1d i = true ∧ i.l1dOpcode = .sw then
      Function.update s.contents (lineNo i.l1dAddr) i.l1MemReqStoreData
    else s.contents := by
  by_cases hg : s.l2.grantsL1d i = true ∧ i.l1dOpcode = .sw
  · obtain ⟨q, hq, ha, ho, hd⟩ := h.granted_l1d he hg.1
    have hr : (s.l2.step i).rL1dRspValid = true := step_rL1dRspValid.mpr (.inr hg)
    have hsw : q.op = .sw := ho.symm.trans hg.2
    rw [if_pos hg, contents_of_some (s := s.step i) hq, ha, hd hsw]
    exact if_pos (by rw [hsw]; exact congrArg (· && true) hr)
  · rw [if_neg hg]
    cases hq : s.nowL1d i with
    | none => exact contents_of_none (s := s.step i) hq
    | some q =>
        rw [contents_of_some (s := s.step i) hq]
        refine if_neg fun hb => ?_
        rw [Bool.and_eq_true, beq_iff_eq] at hb
        rcases step_rL1dRspValid.mp hb.1 with ⟨hs, -⟩ | hg'
        · rw [h.nowL1d_eq he hs] at hq
          rw [(h.l1d_req hs q hq).2.2.2] at hb
          cases hb.2
        · exact hg hg'

theorem step_above (h : s.Sides) (he : s.Env i) : (s.step i).above =
    if s.l2.grantsL1d i = true ∧ i.l1dOpcode = .sw then
      put s.above (l2TagOf i.l1dAddr) (l2IdxOf i.l1dAddr)
        (Function.update (s.above (l2TagOf i.l1dAddr) (l2IdxOf i.l1dAddr))
          (bankOf i.l1dAddr) i.l1MemReqStoreData)
    else s.above := by
  unfold above
  rw [h.step_contents he]
  by_cases hg : s.l2.grantsL1d i = true ∧ i.l1dOpcode = .sw
  · rw [if_pos hg, if_pos hg]
    funext t j b
    rw [Function.update_apply, lineNo_eq]
    by_cases htj : t = l2TagOf i.l1dAddr ∧ j = l2IdxOf i.l1dAddr
    · obtain ⟨rfl, rfl⟩ := htj
      rw [put_self, Function.update_apply]
      by_cases hb : b = bankOf i.l1dAddr
      · rw [if_pos (by rw [hb]), if_pos hb]
      · rw [if_neg fun hh => hb (append_inj hh).2, if_neg hb]
    · rw [if_neg fun hh => htj (append_inj (append_inj hh).1), put, if_neg htj]
  · rw [if_neg hg, if_neg hg]

/-- **What holds in every reachable state**: the phases, and that the cache presents what the
clients expect. -/
structure Inv (s : L2Sys) : Prop where
  sides : s.Sides
  memReq : s.l2.rMemReq = true ↔ s.l2.Waiting
  phase : s.l2.Phase s.below
  presents : s.l2.logical s.below = s.above

theorem Inv.op (h : s.Inv) (hs : s.l2.serving = true) :
    s.l2.rOpcode = .lw ∨ s.l2.rOpcode = .sw := (h.sides.op hs).imp id (·.1)

theorem memLines_append (mem : BitVec 26 → Block) (t : L2Tag) (j : L2Idx) (b : Bank) :
    memLines mem (t ++ j ++ b) = (mem (t ++ j)).bank b := by
  unfold memLines
  rw [BitVec.extractLsb'_append_eq_left, BitVec.extractLsb'_append_eq_right]

theorem reach_inv {s : L2Sys} (h : l2System.Reach Env s) : s.Inv := by
  refine h.invariant (P := Inv) ?_ ?_
  · intro s hs
    refine ⟨.initial hs, reach_memReq (.reset hs), phase_initial hs, ?_⟩
    obtain ⟨⟨p, hp⟩, -, hd, hst⟩ := hs
    have hb : s.l2.logical s.below = s.below := by simp only [L2.logical, hp, L2.init]
    have hc : s.contents = memLines s.mem := by rw [contents, hd, hst]
    rw [hb]
    funext t j b
    rw [above, hc, memLines_append]
    rfl
  · intro s i hs he
    refine ⟨hs.sides.step he, memReq_step hs.memReq, phase_step hs.memReq he hs.op hs.phase, ?_⟩
    show (s.l2.step i).logical (s.step i).below = (s.step i).above
    rw [logical_step hs.memReq he hs.op hs.phase, step_above hs.sides he, hs.presents]

/-! ### Answers, flushes and the `$stop` -/

theorem Inv.wD_eq (h : s.Inv) (hs : s.l2.rState = .checkValidAndTag) (hh : s.l2.wHit = true)
    (ho : s.l2.rOpcode = .lw) {a : Word} (ht : s.l2.rTag = l2TagOf a) (hi : s.l2.rIdx = l2IdxOf a)
    (hb : s.l2.rBank = bankOf a) : s.l2.wD s.l2.rBank = s.contents (lineNo a) := by
  have hp := h.phase
  simp only [L2.Phase, hs] at hp
  have hrd : s.l2.Reads := hp.2.2.1
  have hl := h.presents
  rw [L2.logical_serving (by rw [L2.serving, hs]), if_neg (by rw [ho]; decide)] at hl
  rw [← s.above_apply a, ← hl, ← ht, ← hi, ← hb, Lines.view_hit ((L2.wHit_iff hrd).mp hh),
    hrd.data]

theorem Inv.step_rRspData (h : s.Inv) (hf : s.l2.finishes = true) (ho : s.l2.rOpcode = .lw)
    {a : Word} (ht : s.l2.rTag = l2TagOf a) (hi : s.l2.rIdx = l2IdxOf a)
    (hb : s.l2.rBank = bankOf a) : (s.l2.step i).rRspData = s.contents (lineNo a) := by
  simp only [L2.finishes, Bool.and_eq_true, decide_eq_true_eq] at hf
  obtain ⟨hs, hh⟩ := hf
  rw [← h.wD_eq hs hh ho ht hi hb]
  cases s.l2.move i with
  | hitLoad _ _ _ hc => exact congrArg L2Ctl.nRspData hc
  | wait hw => simp [L2.Waiting, hs] at hw
  | _ => simp_all

/-- The data on the response port are those of the answered load. -/
structure Loads (s : L2Sys) : Prop where
  l1i : s.l2.rL1iRspValid = true → ∀ a, s.l1i = some a → s.l2.rRspData = s.contents (lineNo a)
  l1d : s.l2.rL1dRspValid = true → ∀ q, s.l1d = some q → q.op = .lw →
    s.l2.rRspData = s.contents (lineNo q.addr)

theorem Inv.step_loads (h : s.Inv) (he : s.Env i) : (s.step i).Loads := by
  have hno : s.l2.finishes = true → (s.step i).contents = s.contents := fun hf => by
    rw [h.sides.step_contents he, if_neg]
    rintro ⟨hg, -⟩
    have := L2.not_serving_of_grantsL1d hg
    rw [L2.serving_of_finishes hf] at this
    cases this
  constructor
  · intro hr a ha
    obtain ⟨hs, hf⟩ := h.sides.step_rL1iRspValid.mp hr
    have ha' : s.l1i = some a := (h.sides.nowL1i_eq he hs).symm.trans ha
    obtain ⟨ht, hi, hb⟩ := h.sides.l1i_req hs a ha'
    have ho : s.l2.rOpcode = .lw := by
      simp only [L2.servesL1i, Bool.and_eq_true, Bool.not_eq_true'] at hs
      rcases h.sides.op hs.1 with ho | ⟨-, hl⟩
      · exact ho
      · rw [hs.2] at hl
        cases hl
    rw [hno hf]
    exact h.step_rRspData hf ho ht hi hb
  · intro hr q hq hlw
    rcases step_rL1dRspValid.mp hr with ⟨hs, hf⟩ | ⟨hg, hw⟩
    · have hq' : s.l1d = some q := (h.sides.nowL1d_eq he hs).symm.trans hq
      obtain ⟨ht, hi, hb, -⟩ := h.sides.l1d_req hs q hq'
      have ho : s.l2.rOpcode = .lw := by
        simp only [L2.servesL1d, Bool.and_eq_true, beq_iff_eq] at hs
        exact hs.2.2
      rw [hno hf]
      exact h.step_rRspData hf ho ht hi hb
    · obtain ⟨q', hq', -, ho, -⟩ := h.sides.granted_l1d he hg
      obtain rfl := Option.some.inj (hq'.symm.trans hq)
      rw [← ho, hw] at hlw
      cases hlw

/-- A completed flush leaves the cache empty. -/
def FlushDone (s : L2Sys) : Prop :=
  s.l2.rFlushComplete = true → s.l2.rState = .idle ∧ ∀ j, s.l2.Cleared j

theorem flushDone_nextSet {c : L2Ctl} (hc : s.l2.ctl i = s.l2.nextSet c)
    (hl : (s.l2.step i).lines = s.l2.lines) (hcl : ∀ j, j ≤ s.l2.rIdx → s.l2.Cleared j) :
    (s.step i).FlushDone := by
  intro hf
  have hf' : s.l2.atLast = true := (congrArg L2Ctl.nFlushComplete hc).symm.trans hf
  have hlast : s.l2.rIdx = 16383 := of_decide_eq_true hf'
  have hst : (s.l2.step i).rState = if s.l2.atLast then .idle else .flushWait :=
    congrArg L2Ctl.nState hc
  refine ⟨by rw [hf'] at hst; exact hst, fun j => ?_⟩
  refine L2.cleared_of_lines hl (hcl j ?_)
  rw [hlast]
  bv_omega

theorem Inv.step_flushDone (h : s.Inv) : (s.step i).FlushDone := by
  have hp := h.phase
  cases s.l2.move i with
  | walk hs hc =>
      intro hf
      have hf' : s.l2.atLast = true := (congrArg L2Ctl.nFlushComplete hc).symm.trans hf
      have hst : (s.l2.step i).rState = if s.l2.atLast then .idle else .initialise :=
        congrArg L2Ctl.nState hc
      simp only [L2.Phase, hs] at hp
      refine ⟨by rw [hf'] at hst; exact hst, L2.cleared_last (congrArg L2Ctl.tWrValid hc)
        (congrArg L2Ctl.tValid hc) (congrArg L2Ctl.tWrDirty hc) (congrArg L2Ctl.tDirty hc)
        (congrArg L2Ctl.tIdx hc) hf' hp.2⟩
  | triageClean hs hd hc =>
      simp only [L2.Phase, hs] at hp
      exact flushDone_nextSet hc (lines_of_ctl hc rfl rfl rfl rfl) hp.2.1
  | flushed hs hm hc =>
      simp only [L2.Phase, hs] at hp
      exact flushDone_nextSet hc (lines_of_ctl hc rfl rfl rfl rfl) hp.2.1
  | _ =>
      intro hf
      have hf' : (s.l2.ctl i).nFlushComplete = true := hf
      simp [*, L2.dfltCtl] at hf'

theorem reach_loads {s : L2Sys} (h : l2System.Reach Env s) : s.Loads ∧ s.FlushDone := by
  cases h with
  | reset h =>
      obtain ⟨⟨p, hp⟩, -⟩ := h
      refine ⟨⟨fun hr => ?_, fun hr => ?_⟩, fun hr => ?_⟩
      all_goals
        rw [hp] at hr
        cases hr
  | step h he => exact ⟨(reach_inv h).step_loads he, (reach_inv h).step_flushDone⟩

/-- **A completed flush** leaves no line in the cache and everything in main memory. -/
theorem Inv.flushed (h : s.Inv) (hd : s.FlushDone) (hf : s.l2.rFlushComplete = true) :
    (∀ j, s.l2.validRam j = false ∧ s.l2.dirtyRam j = false) ∧ s.contents = memLines s.mem := by
  obtain ⟨hs, hcl⟩ := hd hf
  refine ⟨hcl, ?_⟩
  have hl := h.presents
  rw [L2.logical_resting (.inl hs), Lines.view_of_invalid fun j => (hcl j).1] at hl
  funext n
  have hn : n = n.extractLsb' 16 12 ++ n.extractLsb' 2 14 ++ n.extractLsb' 0 2 := by
    rw [BitVec.extractLsb'_append_extractLsb'_eq_extractLsb' (by decide),
      BitVec.extractLsb'_append_extractLsb'_eq_extractLsb' (by decide)]
    exact BitVec.extractLsb'_eq_self.symm
  rw [hn, memLines_append]
  exact (congrFun (congrFun (congrFun hl _) _) _).symm

/-- **The `$stop` is not reached.** -/
theorem Inv.not_stops (h : s.Inv) : s.l2.stops = false := by
  unfold L2.stops
  by_cases hs : s.l2.rState = .checkValidAndTag
  · have hp := h.phase
    simp only [L2.Phase, hs] at hp
    cases hr : s.l2.rReload with
    | false => simp
    | true => simp [(L2.wHit_iff hp.2.2.1).mpr (hp.2.2.2 hr)]
  · simp [hs]

end L2Sys
end Rv32Core
