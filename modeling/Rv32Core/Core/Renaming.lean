import Rv32Core.Lib.Rename
import Rv32Core.Core.Queues

/-! # Renaming conserves physical registers

The two alias tables, the two free lists and the ROB entries with a destination are read as a
state of the abstract renamer (`Core.renamer`).  A cycle in ACTIVE is at most two `alloc`s
followed by at most two `retire`s, RAT is `restore`, and the other cycles change nothing; so the
abstract invariant holds in every state of a run made of such cycles. -/

namespace Rv32Core

open RingBuffer Rename

instance : Fintype ArchReg := Fintype.ofEquiv (Fin (2 ^ 5)) BitVec.equivFin.symm.toEquiv

namespace Core

variable {s : Core} {i : CoreIn}

/-! ### The abstract renamer of a state -/

/-- The in-flight writer of a ROB entry, if it has a destination. -/
def writerOf (e : RobEntry) : Option (Entry ArchReg PrfPtr) :=
  if e.validDst then some ⟨e.ldst, e.pdst, e.oldPdst⟩ else none

theorem writerOf_stable : Stable writerOf := ⟨fun _ _ => rfl, fun _ _ => rfl⟩

/-- The abstract renamer of two tables, two free vectors and the writers in the ROB. -/
def ofRegs (rat retireRat : ArchReg → PrfPtr) (free retireFree : PrfPtr → Bool)
    (writers : List (Option (Entry ArchReg PrfPtr))) : State ArchReg PrfPtr where
  rat := rat
  retireRat := retireRat
  free := {p | free p = true}
  retireFree := {p | retireFree p = true}
  inflight := writers.filterMap id

/-- The renamer the registers of the core implement. -/
def renamer (s : Core) : State ArchReg PrfPtr :=
  ofRegs s.rAllocRat s.rRetireRat s.rPrfFree s.rRetirePrfFree (robView writerOf s)

/-- Allocate `p` for `a` when `b` holds. -/
def allocIf (b : Bool) (a : ArchReg) (p : PrfPtr) (r : State ArchReg PrfPtr) :
    State ArchReg PrfPtr := if b then r.alloc a p else r

/-- Retire when `b` holds. -/
def retireIf (b : Bool) (r : State ArchReg PrfPtr) : State ArchReg PrfPtr :=
  if b then r.retire else r

section OfRegs

variable {rat rr : ArchReg → PrfPtr} {f rf : PrfPtr → Bool}
  {ws : List (Option (Entry ArchReg PrfPtr))}

theorem allocIf_ofRegs (b : Bool) (a : ArchReg) (p : PrfPtr) :
    allocIf b a p (ofRegs rat rr f rf ws) =
      ofRegs (writeIf b a p rat) rr (writeIf b p false f) rf
        (ws ++ [if b then some ⟨a, p, rat a⟩ else none]) := by
  cases b
  · simp [allocIf, ofRegs]
  · have hf : {q | f q = true} \ {p} = {q | writeIf true p false f q = true} := by
      ext q
      by_cases hq : q = p <;> simp [writeIf, hq]
    simp only [allocIf, ofRegs, State.alloc, hf, if_true, List.filterMap_append, writeIf_true]
    rfl

theorem retireIf_ofRegs (e : RobEntry) :
    retireIf e.validDst (ofRegs rat rr f rf (writerOf e :: ws)) =
      ofRegs rat (writeIf e.validDst e.ldst e.pdst rr) (writeIf e.validDst e.oldPdst true f)
        (rf |> writeIf e.validDst e.pdst false |> writeIf e.validDst e.oldPdst true) ws := by
  cases hv : e.validDst
  · simp [retireIf, ofRegs, writerOf, hv]
  · have hf : insert e.oldPdst {q | f q = true} =
        {q | writeIf true e.oldPdst true f q = true} := by
      ext q
      by_cases hq : q = e.oldPdst <;> simp [writeIf, hq]
    have hrf : insert e.oldPdst ({q | rf q = true} \ {e.pdst}) =
        {q | (rf |> writeIf true e.pdst false |> writeIf true e.oldPdst true) q = true} := by
      ext q
      by_cases hq : q = e.oldPdst <;> by_cases hq' : q = e.pdst <;> simp [writeIf, hq, hq']
    simp only [retireIf, ofRegs, writerOf, hv, State.retire, if_true, List.filterMap_cons, id,
      hf, hrf, writeIf_true]

end OfRegs

/-! ### The registers on offer are free -/

theorem encoded_free {free : PrfPtr → Bool} (h : isZero free = false) :
    free ((findFirstSet 4 free).setWidth 6) = true := by
  obtain ⟨p, hp, he⟩ := findFirstSet_spec 4 free h
  rw [he]
  have : (p.cons false).setWidth 6 = p := by simp
  exact this.symm ▸ hp

/-- The bank of the first uop: odd registers while `r_bank_sel` is low. -/
theorem nPrfEntry_of_bank (h : s.tGprFfsFull = false) :
    s.rPrfFree s.nPrfEntry = true ∧ s.nPrfEntry.getLsbD 0 = !s.rBankSel := by
  unfold tGprFfsFull at h
  unfold nPrfEntry tGprFfs
  cases hb : s.rBankSel
  · simp only [hb, Bool.false_eq_true, if_false] at h ⊢
    have := encoded_free h
    simp only [wPrfFreeOdd, Bool.and_eq_true] at this
    exact ⟨this.1, this.2⟩
  · simp only [hb, if_true] at h ⊢
    have := encoded_free h
    simp only [wPrfFreeEven, Bool.and_eq_true] at this
    exact ⟨this.1, (Bool.not_eq_true' _).mp this.2⟩

/-- The second uop uses the other bank. -/
theorem nPrfEntry2_of_bank (h : s.tGprFfs2Full = false) :
    s.rPrfFree s.nPrfEntry2 = true ∧ s.nPrfEntry2.getLsbD 0 = s.rBankSel := by
  unfold tGprFfs2Full at h
  unfold nPrfEntry2 tGprFfs2
  cases hb : s.rBankSel
  · simp only [hb, Bool.false_eq_true, if_false] at h ⊢
    have := encoded_free h
    simp only [wPrfFreeEven, Bool.and_eq_true] at this
    exact ⟨this.1, (Bool.not_eq_true' _).mp this.2⟩
  · simp only [hb, if_true] at h ⊢
    have := encoded_free h
    simp only [wPrfFreeOdd, Bool.and_eq_true] at this
    exact ⟨this.1, this.2⟩

theorem nPrfEntry_free (hs : s.rState = .active) (ha : (s.ctl i).tAlloc = true)
    (hd : s.tUop.dstValid = true) :
    s.rPrfFree s.nPrfEntry = true ∧ s.nPrfEntry.getLsbD 0 = !s.rBankSel := by
  have h := (tAlloc_active hs ha).1
  rw [tEnoughIprfs, hd, Bool.true_and, Bool.not_eq_true'] at h
  exact nPrfEntry_of_bank h

theorem nPrfEntry2_free (ha : (s.ctl i).tAllocTwo = true) (hd : s.tUop2.dstValid = true) :
    s.rPrfFree s.nPrfEntry2 = true ∧ s.nPrfEntry2.getLsbD 0 = s.rBankSel := by
  obtain ⟨-, -, -, -, -, h⟩ := allocTwoToo_spec (tAllocTwo_tAlloc ha).2.2
  rw [tEnoughNextIprfs, hd, Bool.true_and, Bool.not_eq_true'] at h
  exact nPrfEntry2_of_bank h

theorem nPrfEntry_ne (h : s.nPrfEntry.getLsbD 0 = !s.rBankSel)
    (h2 : s.nPrfEntry2.getLsbD 0 = s.rBankSel) : s.nPrfEntry2 ≠ s.nPrfEntry := fun he => by
  rw [← he, h2] at h
  cases hb : s.rBankSel <;> rw [hb] at h <;> cases h

/-! ### The uops at the head of the decode queue -/

theorem tUop_mem (ha : (s.ctl i).tAlloc = true) : s.tUop ∈ dqView s := by
  have h := (tAlloc_room ha).2.1
  rw [tDqEmpty, beq_eq_false_iff_ne] at h
  refine mem_contents.mpr ⟨0, occ_pos_iff.mpr h.symm, ?_⟩
  rw [slot_zero]
  rfl

theorem tUop2_mem (hp : s.DqPtrs) (ha : (s.ctl i).tAllocTwo = true) : s.tUop2 ∈ dqView s := by
  have h := hp.avail (i := i)
  rw [nAllocated, (tAllocTwo_tAlloc ha).1, ha] at h
  refine mem_contents.mpr ⟨1, h, ?_⟩
  rw [tUop2, hp.dqNextHead]
  rfl

/-- The decode queue only holds uops with a proper destination. -/
def DqOk (s : Core) : Prop := ∀ u ∈ dqView s, u.DstOk

theorem exists_decodeRiscv {u : Uop} (hu : u ∈ s.decoded i) : ∃ f, u = decodeRiscv f := by
  unfold decoded at hu
  split_ifs at hu
  · rcases List.mem_cons.mp hu with rfl | hu
    · exact ⟨_, rfl⟩
    · exact ⟨_, List.mem_singleton.mp hu⟩
  · exact ⟨_, List.mem_singleton.mp hu⟩
  · cases hu

/-- What holds of the decoded uops goes on holding in the decode queue. -/
theorem forall_dqView_step {P : Uop → Prop} (hp : s.DqPtrs) (h : ∀ u ∈ dqView s, P u)
    (hdec : ∀ f, P (decodeRiscv f)) : ∀ u ∈ dqView (s.step i), P u := by
  intro u hu
  cases hc : s.clrDq i
  · rw [dqView_step hp hc] at hu
    rcases List.mem_append.mp hu with hu | hu
    · exact h u (List.mem_of_mem_drop hu)
    · obtain ⟨f, rfl⟩ := exists_decodeRiscv hu
      exact hdec f
  · rw [dqView_clr hc] at hu
    cases hu

theorem DqOk.step (hp : s.DqPtrs) (h : s.DqOk) : (s.step i).DqOk :=
  forall_dqView_step hp h decodeRiscv_dstOk

theorem archReg_ne_zero {u : Uop} (h : u.DstOk) (hv : u.dstValid = true) : archReg u.dst ≠ 0 := by
  obtain ⟨h0, h32⟩ := h hv
  rw [archReg]
  bv_omega

theorem archReg_inj {p q : PrfPtr} (hp : p < 32) (hq : q < 32) (h : archReg p = archReg q) :
    p = q := by
  unfold archReg at h
  bv_omega

/-! ### Cycles that keep to the renaming protocol -/

/-- The states of start-up, of normal operation and of a drain. -/
def RenameState : CoreState → Prop
  | .flushForHalt | .halt | .haltWaitForRestart | .active | .drain | .rat => True
  | _ => False

instance : DecidablePred RenameState := fun q => by
  cases q <;> first | exact .isTrue trivial | exact .isFalse id

theorem tAlloc_state (hs : RenameState s.rState) (h : (s.ctl i).tAlloc = true) :
    s.rState = .active := by
  rw [ctl_tAlloc] at h
  cases hst : s.rState <;> simp only [hst] at h hs <;>
    first | exact absurd h Bool.false_ne_true | exact hs.elim | rfl

theorem tRetire_active (hs : RenameState s.rState) (h : (s.ctl i).tRetire = true) :
    s.rState = .active ∧ s.tRobEmpty = false := by
  rw [ctl_tRetire] at h
  cases hst : s.rState <;> simp only [hst] at h hs <;>
    first | exact absurd h Bool.false_ne_true | exact hs.elim | skip
  rw [activeCtl_tRetire] at h
  simp only [tCanRetireRobHead, Bool.and_eq_true, Bool.not_eq_true'] at h
  exact ⟨rfl, h.1.2.2⟩

/-- Only WRITE_CAUSE drops the head without retiring it. -/
theorem tBumpRobHead_tRetire (hw : s.rState ≠ .writeCause) (h : (s.ctl i).tBumpRobHead = true) :
    (s.ctl i).tRetire = true := by
  rw [ctl_tBumpRobHead] at h
  rw [ctl_tRetire]
  cases hst : s.rState <;> simp only [hst] at h ⊢ <;>
    first | exact absurd h Bool.false_ne_true | exact absurd hst hw | skip
  rw [activeCtl_tBumpRobHead] at h
  rw [activeCtl_tRetire]
  simp only [Bool.and_eq_true] at h ⊢
  exact ⟨h.1.1, h.2⟩

theorem RenameState.ne (hs : RenameState s.rState) : s.rState ≠ .writeCause := fun h => by
  rw [h] at hs
  exact hs

/-- Whatever leaves the head of the ROB is an entry of it. -/
def RetiresEntry (s : Core) (i : CoreIn) : Prop :=
  ((s.ctl i).tRetire || (s.ctl i).tBumpRobHead) = true → s.tRobEmpty = false

theorem RetiresEntry.nLeaving_le (h : s.RetiresEntry i) (hp : s.Ptrs) :
    s.nLeaving i ≤ occ s.rRobHeadPtr s.rRobTailPtr := by
  unfold nLeaving
  by_cases hr : ((s.ctl i).tRetire || (s.ctl i).tBumpRobHead) = true
  · have he := h hr
    rw [tRobEmpty, beq_eq_false_iff_ne] at he
    have h1 : 0 < occ s.rRobHeadPtr s.rRobTailPtr := occ_pos_iff.mpr he
    by_cases h2 : (s.ctl i).tRetireTwo = true
    · have hn := (tRetireTwo_tRetire h2).2
      rw [tRobNextEmpty, beq_eq_false_iff_ne, hp.robNextHead] at hn
      have h2' : 0 < occ (s.rRobHeadPtr + 1) s.rRobTailPtr := occ_pos_iff.mpr hn
      have ho : occ (s.rRobHeadPtr + 1) s.rRobTailPtr = occ s.rRobHeadPtr s.rRobTailPtr - 1 :=
        occ_head_add _ _ (n := 1) h1
      rw [if_pos hr, if_pos h2]
      omega
    · rw [if_pos hr, if_neg h2]
      omega
  · rw [if_neg hr]
    omega

theorem RenameState.retires (hs : RenameState s.rState) : s.RetiresEntry i := fun h => by
  have hr : (s.ctl i).tRetire = true := by
    rcases Bool.or_eq_true _ _ |>.mp h with h | h
    · exact h
    · exact tBumpRobHead_tRetire hs.ne h
  exact (tRetire_active hs hr).2

theorem nLeaving_le (hs : RenameState s.rState) (hp : s.Ptrs) :
    s.nLeaving i ≤ occ s.rRobHeadPtr s.rRobTailPtr := hs.retires.nLeaving_le hp

/-! ### One cycle is a sequence of renamer operations -/

theorem tRobHead_view {β : Type*} (f : RobEntry → β) (he : s.tRobEmpty = false) :
    robView f s = f s.tRobHead ::
      contents (fun p => f (s.rRob p)) (s.rRobHeadPtr + 1) s.rRobTailPtr := by
  rw [tRobEmpty, beq_eq_false_iff_ne] at he
  exact contents_pop _ he

theorem tRobNextHead_view {β : Type*} (f : RobEntry → β) (hp : s.Ptrs)
    (hn : s.tRobNextEmpty = false) :
    contents (fun p => f (s.rRob p)) (s.rRobHeadPtr + 1) s.rRobTailPtr = f s.tRobNextHead ::
      contents (fun p => f (s.rRob p)) (s.rRobHeadPtr + 1 + 1) s.rRobTailPtr := by
  rw [tRobNextEmpty, beq_eq_false_iff_ne, hp.robNextHead] at hn
  rw [tRobNextHead, hp.robNextHead]
  exact contents_pop _ hn

/-- The operations of one cycle: two allocations, then two retirements. -/
def renamerStep (s : Core) (i : CoreIn) : State ArchReg PrfPtr :=
  s.renamer
    |> allocIf ((s.ctl i).tAlloc && s.tUop.dstValid) (archReg s.tUop.dst) s.nPrfEntry
    |> allocIf ((s.ctl i).tAllocTwo && s.tUop2.dstValid) (archReg s.tUop2.dst) s.nPrfEntry2
    |> retireIf (s.tFreeReg i)
    |> retireIf (s.tFreeRegTwo i)

theorem writerOf_robEntryOf (u : Uop) (alloc : Bool) (p o : PrfPtr) :
    writerOf (robEntryOf u alloc p o) =
      if alloc && u.dstValid then some ⟨archReg u.dst, p, o⟩ else none := by
  cases h : alloc && u.dstValid <;> simp [writerOf, robEntryOf, h]

/-- The previous mapping of the second uop is the one the first leaves.  The source compares whole
register fields here and their low five bits elsewhere, which is the same for decoded uops. -/
theorem oldPdst_eq (h : (s.ctl i).tAlloc = true) (hd : s.tUop.DstOk) (hd2 : s.tUop2.DstOk)
    (hv : s.tUop2.dstValid = true) :
    (if s.tUop.dstValid && s.tUop.dst == s.tUop2.dst then (s.tRobTail i).pdst
      else s.rAllocRat (archReg s.tUop2.dst)) =
      writeIf s.tUop.dstValid (archReg s.tUop.dst) s.nPrfEntry s.rAllocRat
        (archReg s.tUop2.dst) := by
  rw [writeIf_apply]
  cases hv1 : s.tUop.dstValid
  · rfl
  · by_cases he : s.tUop.dst = s.tUop2.dst
    · simp [he, tRobTail, robEntryOf, h, hv1]
    · have hne : archReg s.tUop2.dst ≠ archReg s.tUop.dst := fun hc =>
        he (archReg_inj (hd hv1).2 (hd2 hv).2 hc.symm)
      simp [he, hne]

theorem renamer_allocated (hp : s.Ptrs) (hq : s.DqOk)
    (ws : List (Option (Entry ArchReg PrfPtr))) :
    (ofRegs s.rAllocRat s.rRetireRat s.rPrfFree s.rRetirePrfFree ws
      |> allocIf ((s.ctl i).tAlloc && s.tUop.dstValid) (archReg s.tUop.dst) s.nPrfEntry
      |> allocIf ((s.ctl i).tAllocTwo && s.tUop2.dstValid) (archReg s.tUop2.dst) s.nPrfEntry2) =
      ofRegs (s.nAllocRat i) s.rRetireRat
        (s.rPrfFree
          |> writeIf ((s.ctl i).tAlloc && s.tUop.dstValid) s.nPrfEntry false
          |> writeIf ((s.ctl i).tAllocTwo && s.tUop2.dstValid) s.nPrfEntry2 false)
        s.rRetirePrfFree (ws ++ (s.allocated i).map writerOf) := by
  rw [allocIf_ofRegs, allocIf_ofRegs]
  unfold allocated nAllocRat
  dsimp only
  cases h1 : (s.ctl i).tAlloc
  · have h2 : (s.ctl i).tAllocTwo = false := by
      by_contra h2
      rw [(tAllocTwo_tAlloc (Bool.not_eq_false _ |>.mp h2)).1] at h1
      cases h1
    simp [h2, ofRegs]
  · cases h2 : (s.ctl i).tAllocTwo
    · simp [ofRegs, tRobTail, writerOf_robEntryOf, h1]
    · cases hd2 : s.tUop2.dstValid
      · cases hd : s.tUop.dstValid <;>
          simp [ofRegs, tRobTail, tRobNextTail, writerOf_robEntryOf, h1, hd, hd2]
      · have ho := oldPdst_eq h1 (hq _ (tUop_mem h1)) (hq _ (tUop2_mem hp.toDqPtrs h2)) hd2
        simp only [tRobTail, tRobNextTail, writerOf_robEntryOf, h1, h2, hd2, Bool.true_and,
          if_true, List.map_cons, List.map_nil, List.append_assoc] at ho ⊢
        rw [← ho]
        rfl

/-- **The core refines the renamer** in the cycles that allocate and retire. -/
theorem renamer_step (hw : s.rState ≠ .writeCause) (he : s.RetiresEntry i) (hr : s.rState ≠ .rat)
    (hp : s.Ptrs) (hq : s.DqOk) : (s.step i).renamer = s.renamerStep i := by
  have hc : (s.ctl i).tRatCopy = false := by rw [ctl_tRatCopy, decide_eq_false hr]
  have hv := robView_step (i := i) writerOf_stable hp hr (he.nLeaving_le hp)
  have hrat : (s.step i).rAllocRat = s.nAllocRat i :=
    if_neg (by rw [hc]; exact Bool.false_ne_true)
  have hfree : (s.step i).rPrfFree = s.nPrfFree i :=
    if_neg (by rw [hc]; exact Bool.false_ne_true)
  have hrr : (s.step i).rRetireRat = s.nRetireRat i := rfl
  have hrf : (s.step i).rRetirePrfFree = s.nRetirePrfFree i := rfl
  rw [renamer, hv, hrat, hfree, hrr, hrf, renamerStep, renamer, renamer_allocated hp hq]
  unfold nLeaving nRetireRat nRetirePrfFree nPrfFree tFreeReg tFreeRegTwo
  cases h1 : (s.ctl i).tRetire
  · have hb : (s.ctl i).tBumpRobHead = false := by
      by_contra hb
      rw [tBumpRobHead_tRetire hw (Bool.not_eq_false _ |>.mp hb)] at h1
      cases h1
    simp [hb, retireIf]
  · rw [tRobHead_view writerOf (he (by rw [h1]; rfl))]
    simp only [Bool.true_or, Bool.true_and, if_true, List.cons_append]
    rw [retireIf_ofRegs]
    cases h2 : (s.ctl i).tRetireTwo
    · simp [retireIf]
    · rw [tRobNextHead_view writerOf hp (tRetireTwo_tRetire h2).2]
      simp only [Bool.true_and, if_true, List.cons_append, List.drop_succ_cons, List.drop_zero]
      rw [retireIf_ofRegs]

/-- **The core refines the renamer** in RAT. -/
theorem renamer_rat (hr : s.rState = .rat) : (s.step i).renamer = s.renamer.restore := by
  have hc : (s.ctl i).tRatCopy = true := by rw [ctl_tRatCopy, decide_eq_true hr]
  have ht : (s.ctl i).tRetire = false := by rw [ctl_tRetire, hr]
  have hrat : (s.step i).rAllocRat = s.rRetireRat := if_pos hc
  have hfree : (s.step i).rPrfFree = s.rRetirePrfFree := if_pos hc
  have hrr : (s.step i).rRetireRat = s.rRetireRat := by
    change s.nRetireRat i = _
    simp [nRetireRat, tFreeReg, tFreeRegTwo, ht]
  have hrf : (s.step i).rRetirePrfFree = s.rRetirePrfFree := by
    change s.nRetirePrfFree i = _
    simp [nRetirePrfFree, tFreeReg, tFreeRegTwo, ht]
  rw [renamer, robView_rat writerOf hr, hrat, hfree, hrr, hrf]
  rfl

/-! ### The invariant -/

/-- What the renaming part of the core maintains. -/
structure RenameInv (s : Core) : Prop where
  ptrs : s.Ptrs
  dqOk : s.DqOk
  wellFormed : s.renamer.WellFormed
  pinned : s.renamer.Pinned 0 0

theorem exists_initRat (p : PrfPtr) : (∃ a, initRat a = p) ↔ ¬ 32 ≤ p := by
  constructor
  · rintro ⟨a, rfl⟩
    rw [initRat]
    bv_omega
  · intro h
    exact ⟨p.setWidth 5, by rw [initRat]; bv_omega⟩

theorem init_renameInv (rob : RobPtr → RobEntry) (bob : BitVec 2 → BobEntry)
    (dq : BitVec 2 → Uop) : (init rob bob dq).RenameInv := by
  have hr : robView writerOf (init rob bob dq) = [] := contents_self _ _
  have hv : (init rob bob dq).renamer.inflight = [] := by
    rw [renamer, hr]
    rfl
  have hu : (init rob bob dq).renamer.used = Finset.univ.val.map initRat := by
    rw [State.used, hv]
    exact Multiset.add_zero _
  have hd : dqView (init rob bob dq) = [] := by simp [dqView, init]
  refine { ptrs := init_ptrs _ _ _, dqOk := ?_, wellFormed := ⟨?_, ?_, ?_, ?_⟩,
           pinned := ⟨rfl, by simp [hv]⟩ }
  · intro u hu
    rw [hd] at hu
    cases hu
  · rw [hv]
    rfl
  · rw [hu]
    refine (Multiset.nodup_map_iff_inj_on Finset.univ.nodup).mpr fun a _ b _ h => ?_
    simp only [initRat] at h
    bv_omega
  · intro p
    rw [hu, Multiset.mem_map]
    have := (exists_initRat p).not_left
    simp only [Finset.mem_val, Finset.mem_univ, true_and, exists_initRat, not_not]
    exact decide_eq_true_iff
  · intro p
    have := (exists_initRat p).not
    rw [not_exists, not_not] at this
    exact decide_eq_true_iff.trans this.symm

theorem allocIf_wellFormed {r : State ArchReg PrfPtr} (h : r.WellFormed) (hp : r.Pinned 0 0)
    {b : Bool} {a : ArchReg} {p : PrfPtr} (ha : b = true → a ≠ 0 ∧ p ∈ r.free) :
    (allocIf b a p r).WellFormed ∧ (allocIf b a p r).Pinned 0 0 := by
  cases b
  · exact ⟨h, hp⟩
  · exact ⟨h.alloc a (ha rfl).2, hp.alloc (ha rfl).1 p⟩

theorem retireIf_wellFormed {r : State ArchReg PrfPtr} (h : r.WellFormed) (hp : r.Pinned 0 0)
    (b : Bool) : (retireIf b r).WellFormed ∧ (retireIf b r).Pinned 0 0 := by
  cases b
  · exact ⟨h, hp⟩
  · exact ⟨h.retire, hp.retire⟩

/-- In a cycle of the protocol both registers handed out are free. -/
theorem renamerStep_wellFormed (hs : RenameState s.rState) (h : s.RenameInv) :
    (s.renamerStep i).WellFormed ∧ (s.renamerStep i).Pinned 0 0 := by
  have h1 : ((s.ctl i).tAlloc && s.tUop.dstValid) = true →
      archReg s.tUop.dst ≠ 0 ∧ s.rPrfFree s.nPrfEntry = true ∧
        s.nPrfEntry.getLsbD 0 = !s.rBankSel := fun hb => by
    obtain ⟨ha, hd⟩ := Bool.and_eq_true _ _ |>.mp hb
    exact ⟨archReg_ne_zero (h.dqOk _ (tUop_mem ha)) hd, nPrfEntry_free (tAlloc_state hs ha) ha hd⟩
  have h2 : ((s.ctl i).tAllocTwo && s.tUop2.dstValid) = true →
      archReg s.tUop2.dst ≠ 0 ∧ s.rPrfFree s.nPrfEntry2 = true ∧
        s.nPrfEntry2.getLsbD 0 = s.rBankSel := fun hb => by
    obtain ⟨ha, hd⟩ := Bool.and_eq_true _ _ |>.mp hb
    exact ⟨archReg_ne_zero (h.dqOk _ (tUop2_mem h.ptrs.toDqPtrs ha)) hd, nPrfEntry2_free ha hd⟩
  obtain ⟨w1, p1⟩ := allocIf_wellFormed h.wellFormed h.pinned
    (b := (s.ctl i).tAlloc && s.tUop.dstValid) (a := archReg s.tUop.dst) (p := s.nPrfEntry)
    fun hb => ⟨(h1 hb).1, (h1 hb).2.1⟩
  obtain ⟨w2, p2⟩ := allocIf_wellFormed w1 p1
    (b := (s.ctl i).tAllocTwo && s.tUop2.dstValid) (a := archReg s.tUop2.dst)
    (p := s.nPrfEntry2) fun hb => ⟨(h2 hb).1, by
      -- the second register is still free after the first allocation: it is in the other bank
      cases hb1 : (s.ctl i).tAlloc && s.tUop.dstValid
      · exact (h2 hb).2.1
      · exact ⟨(h2 hb).2.1, nPrfEntry_ne (h1 hb1).2.2 (h2 hb).2.2⟩⟩
  obtain ⟨w3, p3⟩ := retireIf_wellFormed w2 p2 (s.tFreeReg i)
  exact retireIf_wellFormed w3 p3 (s.tFreeRegTwo i)

theorem RenameInv.step (hs : RenameState s.rState) (h : s.RenameInv) : (s.step i).RenameInv := by
  have hp := h.ptrs.step (i := i) (nLeaving_le hs h.ptrs)
  have hq := h.dqOk.step (i := i) h.ptrs.toDqPtrs
  by_cases hr : s.rState = .rat
  · have he := renamer_rat (i := i) hr
    exact ⟨hp, hq, he ▸ h.wellFormed.restore, he ▸ h.pinned.restore⟩
  · have he := renamer_step (i := i) hs.ne hs.retires hr h.ptrs h.dqOk
    have hw := renamerStep_wellFormed (i := i) hs h
    exact ⟨hp, hq, he ▸ hw.1, he ▸ hw.2⟩

theorem reach_renameInv (h : coreMachine.Reach (fun s _ => RenameState s.rState) s) :
    s.RenameInv :=
  h.invariant (fun _ ⟨_, _, _, he⟩ => he ▸ init_renameInv _ _ _) fun _ _ h hs => h.step hs

theorem olds_filterMap (l : List RobEntry) :
    (l.filterMap writerOf).map Entry.old =
      (l.filter RobEntry.validDst).map RobEntry.oldPdst := by
  induction l with
  | nil => rfl
  | cons e l ih => cases hv : e.validDst <;> simp [writerOf, hv, ih]

/-- **Renaming conserves physical registers.**  In every run made of start-up, ACTIVE, DRAIN
and RAT cycles, whatever the execution unit and the caches answer: the speculative table is
injective; its image, the free list and the registers the in-flight entries replaced are
pairwise disjoint and cover all 64 registers, and no register is replaced twice; the retired
free list is the complement of the retired table's image; `x0` stays mapped to register 0,
which is never free. -/
theorem rename_conserves (h : coreMachine.Reach (fun s _ => RenameState s.rState) s) :
    Function.Injective s.rAllocRat ∧
    (∀ a, s.rPrfFree (s.rAllocRat a) = false) ∧
    (∀ a, ∀ e ∈ robView id s, e.validDst = true → s.rAllocRat a ≠ e.oldPdst) ∧
    (∀ e ∈ robView id s, e.validDst = true → s.rPrfFree e.oldPdst = false) ∧
    (∀ p, (∃ a, s.rAllocRat a = p) ∨ s.rPrfFree p = true ∨
      ∃ e ∈ robView id s, e.validDst = true ∧ e.oldPdst = p) ∧
    (((robView id s).filter RobEntry.validDst).map RobEntry.oldPdst).Nodup ∧
    (∀ p, s.rRetirePrfFree p = true ↔ ∀ a, s.rRetireRat a ≠ p) ∧
    s.rAllocRat 0 = 0 ∧ s.rPrfFree 0 = false := by
  have hi := reach_renameInv h
  have hw := hi.wellFormed
  have hin : s.renamer.inflight = (robView id s).filterMap writerOf := by
    simp [renamer, ofRegs, robView, contents, List.filterMap_map]
  have hmem : ∀ e ∈ robView id s, e.validDst = true →
      (⟨e.ldst, e.pdst, e.oldPdst⟩ : Entry ArchReg PrfPtr) ∈ s.renamer.inflight := fun e he hv => by
    rw [hin]
    exact List.mem_filterMap.mpr ⟨e, he, by rw [writerOf, if_pos hv]⟩
  refine ⟨hw.rat_injective, fun a => ?_, fun a e he hv => hw.rat_ne_old a (hmem e he hv),
    fun e he hv => ?_, fun p => ?_, ?_, hw.retireFree_iff, hi.pinned.rat hw, ?_⟩
  · exact Bool.eq_false_iff.mpr (hw.rat_notMem_free a)
  · exact Bool.eq_false_iff.mpr (hw.old_notMem_free (hmem e he hv))
  · rcases hw.cover p with ha | hf | ⟨w, hw', rfl⟩
    · exact .inl ha
    · exact .inr (.inl hf)
    · rw [hin] at hw'
      obtain ⟨e, he, hwe⟩ := List.mem_filterMap.mp hw'
      unfold writerOf at hwe
      split_ifs at hwe with hv
      rw [Option.some.injEq] at hwe
      exact .inr (.inr ⟨e, he, hv, by rw [← hwe]⟩)
  · have := hw.olds_nodup
    rwa [hin, olds_filterMap] at this
  · exact Bool.eq_false_iff.mpr (hi.pinned.notMem_free hw)

/-- Start-up, then `addi x1, x0, 1` is fetched and allocated. -/
def addiInputs : List CoreIn := bootInputs ++ [CoreIn.fetch 0 0x00100093, CoreIn.idle]

theorem rename_conserves_addi :
    (coreMachine.run zeroed addiInputs).rAllocRat 1 = 63 ∧
    Function.Injective (coreMachine.run zeroed addiInputs).rAllocRat :=
  ⟨by decide +kernel,
    (rename_conserves (.run reach_zeroed (by decide +kernel))).1⟩

end Core
end Rv32Core
