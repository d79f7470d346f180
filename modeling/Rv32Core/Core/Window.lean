import Rv32Core.Core.Serial
import Rv32Core.Core.TwoWide
import Rv32Core.Lib.Dataflow

/-! # The instruction window of the core

A run is watched with the uop of each ROB slot, as it was decoded and as it was renamed.  Read with
it, the ROB and the two alias tables are a window of renamed instructions as long as every register
handed out is free: a cycle issues at most two instructions and commits at most two, RAT drops the
window. -/

namespace Rv32Core

open RingBuffer Rename

/-- The uop of a slot, as it was decoded and as it was sent to the execution unit. -/
structure Slot where
  decoded : Uop
  renamed : Uop

/-- The sources of a slot with the registers they were renamed to. -/
def Slot.reads (x : Slot) : List (ArchReg × PrfPtr) :=
  (if x.decoded.srcAValid then [(archReg x.decoded.srcA, x.renamed.srcA)] else []) ++
    if x.decoded.srcBValid then [(archReg x.decoded.srcB, x.renamed.srcB)] else []

theorem Slot.mem_reads {x : Slot} {y : ArchReg × PrfPtr} : y ∈ x.reads ↔
    (x.decoded.srcAValid = true ∧ y = (archReg x.decoded.srcA, x.renamed.srcA)) ∨
      (x.decoded.srcBValid = true ∧ y = (archReg x.decoded.srcB, x.renamed.srcB)) := by
  unfold reads
  cases x.decoded.srcAValid <;> cases x.decoded.srcBValid <;> simp

namespace Core

variable {s : Core} {i : CoreIn} {l : RobPtr → Slot}

/-- An observer that remembers the uop each slot was allocated for. -/
def watchSlots (l : RobPtr → Slot) (s : Core) (i : CoreIn) : RobPtr → Slot :=
  l
    |> writeIf (s.ctl i).tAlloc (idx s.rRobTailPtr) ⟨s.tUop, s.tAllocUop i⟩
    |> writeIf (s.ctl i).tAllocTwo (idx s.rRobNextTailPtr) ⟨s.tUop2, s.tAllocUop2 i⟩

/-- The instruction of a slot. -/
def instrAt (l : RobPtr → Slot) (p : RobPtr) (e : RobEntry) : Instr ArchReg PrfPtr :=
  ⟨(l p).reads, writerOf e⟩

/-- The instructions in the ROB, oldest first. -/
def instrs (l : RobPtr → Slot) (s : Core) : List (Instr ArchReg PrfPtr) := slotView (instrAt l) s

theorem instrAt_stable (l : RobPtr → Slot) (p : RobPtr) : Stable (instrAt l p) :=
  ⟨fun _ _ => rfl, fun _ _ => rfl⟩

/-- What the entry of a slot keeps of its uop. -/
structure SlotOk (p : RobPtr) (x : Slot) (e : RobEntry) : Prop where
  decoded : ∃ f, x.decoded = decodeRiscv f
  renames : x.renamed.Renames x.decoded
  robPtr : x.renamed.robPtr = p
  entry : ∃ old, e.static = (robEntryOf x.decoded true x.renamed.dst old).static

/-- The ROB and the alias tables are a window, of decoded uops, and `x0` stays in register 0. -/
structure WindowInv (s : Core) (l : RobPtr → Slot) : Prop where
  dqOk : s.DqOk
  window : Window s.renamer (instrs l s)
  pinned : s.renamer.Pinned 0 0
  slots : ∀ p, s.InRob p → SlotOk p (l p) (s.rRob p)

/-! ### The uops of the slots -/

theorem watchSlots_of_inRob (hp : s.Ptrs) {p : RobPtr} (h : s.InRob p) :
    watchSlots l s i p = l p := hp.writes_inRob _ _ _ h

theorem watchSlots_tail (hp : s.Ptrs) (h : (s.ctl i).tAlloc = true) :
    watchSlots l s i (idx s.rRobTailPtr) = ⟨s.tUop, s.tAllocUop i⟩ := hp.writes_tail _ _ _ h

theorem watchSlots_nextTail (h : (s.ctl i).tAllocTwo = true) :
    watchSlots l s i (idx s.rRobNextTailPtr) = ⟨s.tUop2, s.tAllocUop2 i⟩ := writes_nextTail _ _ _ h

theorem static_step (hs : s.rState ≠ .rat) (p : RobPtr) : ((s.step i).rRob p).static =
    ((fun p => (s.rRob p).static)
      |> writeIf (s.ctl i).tAlloc (idx s.rRobTailPtr) (s.tRobTail i).static
      |> writeIf (s.ctl i).tAllocTwo (idx s.rRobNextTailPtr) (s.tRobNextTail i).static) p :=
  congrFun (static_stable.nRob (i := i) hs) p

theorem static_pdst (u : Uop) (old : PrfPtr) {p q : PrfPtr} (h : u.dstValid = true → q = p) :
    ∃ o, (robEntryOf u true p old).static = (robEntryOf u true q o).static := by
  refine ⟨old, ?_⟩
  cases hv : u.dstValid
  · simp [robEntryOf, hv]
  · rw [h hv]

theorem WindowInv.slot_step (h : s.WindowInv l) (ho : s.Occupied) (hq : s.DqDecoded)
    {p : RobPtr} (hin : (s.step i).InRob p) :
    SlotOk p (watchSlots l s i p) ((s.step i).rRob p) := by
  have hp := ho.ptrs
  have hs : s.rState ≠ .rat := fun hs => not_inRob_of_zero (robCount_rat hs) p hin
  have he := static_step (i := i) hs p
  rw [writeIf_apply, writeIf_apply] at he
  by_cases h2 : (s.ctl i).tAllocTwo = true ∧ p = idx s.rRobNextTailPtr
  · rw [if_pos h2] at he
    obtain ⟨ha, rfl⟩ := h2
    rw [watchSlots_nextTail ha]
    refine ⟨hq _ (tUop2_mem hp.toDqPtrs ha), tAllocUop2_renames s i, tAllocUop2_robPtr s i ha, ?_⟩
    rw [he, tRobNextTail, ha]
    exact static_pdst _ _ (tAllocUop2_dst s i ha)
  rw [if_neg h2] at he
  by_cases h1 : (s.ctl i).tAlloc = true ∧ p = idx s.rRobTailPtr
  · rw [if_pos h1] at he
    obtain ⟨ha, rfl⟩ := h1
    rw [watchSlots_tail hp ha]
    refine ⟨hq _ (tUop_mem ha), tAllocUop_renames s i, tAllocUop_robPtr s i ha, ?_⟩
    rw [he, tRobTail, ha]
    exact static_pdst _ _ (tAllocUop_dst s i ha)
  rw [if_neg h1] at he
  obtain hin | hin | hin := inRob_of_step hp ho.nLeaving_le hin
  · obtain ⟨hdec, hren, hrob, old, hent⟩ := h.slots p hin
    rw [watchSlots_of_inRob hp hin]
    exact ⟨hdec, hren, hrob, old, he.trans hent⟩
  · exact absurd hin h1
  · exact absurd hin h2

/-! ### One cycle of the window -/

theorem allocIf_eq_issue (b : Bool) (a : ArchReg) (p o : PrfPtr) (r : State ArchReg PrfPtr) :
    allocIf b a p r = r.issue (if b then some ⟨a, p, o⟩ else none) := by
  cases b <;> rfl

theorem retireIf_eq_commit (e : RobEntry) (r : State ArchReg PrfPtr) :
    retireIf e.validDst r = r.commit (writerOf e) := by
  unfold writerOf
  cases e.validDst <;> rfl

theorem WindowInv.allocated (h : s.WindowInv l) (hp : s.Ptrs) (ha : s.AllocatesFree i) :
    Window (s.renamer
      |> allocIf ((s.ctl i).tAlloc && s.tUop.dstValid) (archReg s.tUop.dst) s.nPrfEntry
      |> allocIf ((s.ctl i).tAllocTwo && s.tUop2.dstValid) (archReg s.tUop2.dst) s.nPrfEntry2)
      (instrs l s ++ (s.allocatedSlots i).map fun x =>
        instrAt (watchSlots l s i) x.1 x.2) := by
  unfold allocatedSlots
  cases h1 : (s.ctl i).tAlloc
  · have h2 : (s.ctl i).tAllocTwo = false := Bool.eq_false_iff.mpr fun h2 => by
      rw [(tAllocTwo_tAlloc h2).1] at h1
      cases h1
    rw [h2]
    simpa [allocIf] using h.window
  · have hw1 : (instrAt (watchSlots l s i) (idx s.rRobTailPtr) (s.tRobTail i)).writer =
        if s.tUop.dstValid then
          some ⟨archReg s.tUop.dst, s.nPrfEntry, s.rAllocRat (archReg s.tUop.dst)⟩ else none := by
      rw [instrAt, tRobTail, writerOf_robEntryOf, h1, Bool.true_and]
    have hfirst : Window (allocIf s.tUop.dstValid (archReg s.tUop.dst) s.nPrfEntry s.renamer)
        (instrs l s ++ [instrAt (watchSlots l s i) (idx s.rRobTailPtr) (s.tRobTail i)]) := by
      rw [allocIf_eq_issue _ _ _ (s.rAllocRat (archReg s.tUop.dst)), ← hw1]
      refine h.window.issue (fun x hx => ?_) fun w hw => ?_
      · rw [instrAt, watchSlots_tail hp h1, Slot.mem_reads] at hx
        obtain ⟨hv, rfl⟩ | ⟨hv, rfl⟩ := hx
        · exact if_pos hv
        · exact if_pos hv
      · rw [hw1] at hw
        split_ifs at hw with hv
        obtain rfl := Option.some.inj hw
        exact ⟨(ha.1 h1 hv).1, rfl⟩
    cases h2 : (s.ctl i).tAllocTwo
    · simpa [allocIf] using hfirst
    · have hact := (tAllocTwo_tAlloc h2).2.1
      have hrat : (allocIf s.tUop.dstValid (archReg s.tUop.dst) s.nPrfEntry s.renamer).rat =
          writeIf s.tUop.dstValid (archReg s.tUop.dst) s.nPrfEntry s.rAllocRat := by
        rw [renamer, allocIf_ofRegs]
        rfl
      have hw2 : (instrAt (watchSlots l s i) (idx s.rRobNextTailPtr) (s.tRobNextTail i)).writer =
          if s.tUop2.dstValid then some ⟨archReg s.tUop2.dst, s.nPrfEntry2,
            writeIf s.tUop.dstValid (archReg s.tUop.dst) s.nPrfEntry s.rAllocRat
              (archReg s.tUop2.dst)⟩ else none := by
        rw [instrAt, tRobNextTail, writerOf_robEntryOf, h2, Bool.true_and]
        cases hv2 : s.tUop2.dstValid
        · rfl
        · rw [oldPdst_eq h1 (h.dqOk _ (tUop_mem h1)) (h.dqOk _ (tUop2_mem hp.toDqPtrs h2)) hv2]
      have hsecond := hfirst.issue
        (e := instrAt (watchSlots l s i) (idx s.rRobNextTailPtr) (s.tRobNextTail i))
        (fun x hx => ?_) fun w hw => ?_
      · rw [hw2, ← allocIf_eq_issue, List.append_assoc] at hsecond
        simpa using hsecond
      · rw [instrAt, watchSlots_nextTail h2, Slot.mem_reads] at hx
        rw [hrat]
        obtain ⟨hv, rfl⟩ | ⟨hv, rfl⟩ := hx
        · exact (if_pos hv).trans (renameSrc2_eq s _)
        · exact (if_pos hv).trans (renameSrc2_eq s _)
      · rw [hw2] at hw
        split_ifs at hw with hv2
        obtain rfl := Option.some.inj hw
        refine ⟨?_, by rw [hrat]⟩
        have hf2 := (ha.2 h2 hv2).1
        cases hv : s.tUop.dstValid
        · exact hf2
        · -- the second register comes from the other bank
          exact ⟨hf2, nPrfEntry_ne (nPrfEntry_free hact h1 hv).2 (nPrfEntry2_free h2 hv2).2⟩

theorem instrs_step (hp : s.Ptrs) (hs : s.rState ≠ .rat) (hl : s.nLeaving i ≤ s.robCount) :
    instrs (watchSlots l s i) (s.step i) = (instrs l s).drop (s.nLeaving i) ++
      (s.allocatedSlots i).map fun x => instrAt (watchSlots l s i) x.1 x.2 := by
  have hv := slotView_step (i := i) (instrAt_stable (watchSlots l s i)) hp hs hl
  have hsame : slotView (instrAt (watchSlots l s i)) s = instrs l s := by
    unfold instrs slotView
    refine contents_congr fun j hj => ?_
    rw [instrAt, watchSlots_of_inRob hp ⟨j, hj, rfl⟩]
    rfl
  rw [instrs, hv, hsame]

theorem instrs_cons (he : s.tRobEmpty = false) : instrs l s =
    instrAt l (idx s.rRobHeadPtr) s.tRobHead ::
      contents (fun p => instrAt l p (s.rRob p)) (s.rRobHeadPtr + 1) s.rRobTailPtr := by
  rw [tRobEmpty, beq_eq_false_iff_ne] at he
  exact contents_pop (fun p => instrAt l p (s.rRob p)) he

theorem instrs_cons_two (hp : s.Ptrs) (hn : s.tRobNextEmpty = false) :
    contents (fun p => instrAt l p (s.rRob p)) (s.rRobHeadPtr + 1) s.rRobTailPtr =
      instrAt l (idx s.rRobNextHeadPtr) s.tRobNextHead ::
        contents (fun p => instrAt l p (s.rRob p)) (s.rRobHeadPtr + 1 + 1) s.rRobTailPtr := by
  rw [tRobNextEmpty, beq_eq_false_iff_ne, hp.robNextHead] at hn
  rw [tRobNextHead, hp.robNextHead]
  exact contents_pop (fun p => instrAt l p (s.rRob p)) hn

/-- **One cycle keeps the window.** -/
theorem WindowInv.step (h : s.WindowInv l) (ho : s.Occupied) (hq : s.DqDecoded)
    (hw : s.rState ≠ .writeCause) (ha : s.AllocatesFree i) :
    (s.step i).WindowInv (watchSlots l s i) := by
  have hp := ho.ptrs
  refine ⟨h.dqOk.step hp.toDqPtrs, ?_, ?_, fun p hin => h.slot_step ho hq hin⟩
  · by_cases hs : s.rState = .rat
    · have hnil : instrs (watchSlots l s i) (s.step i) = [] := by
        rw [← List.length_eq_zero_iff, instrs, slotView, contents_length]
        exact robCount_rat hs
      rw [renamer_rat hs, hnil]
      exact h.window.restore
    · rw [renamer_step hw ho.retires hs hp h.dqOk, instrs_step hp hs ho.nLeaving_le, renamerStep]
      have hall := h.allocated hp ha
      unfold tFreeReg tFreeRegTwo nLeaving
      cases h1 : (s.ctl i).tRetire
      · have hb : (s.ctl i).tBumpRobHead = false := Bool.eq_false_iff.mpr fun hb => by
          rw [tBumpRobHead_tRetire hw hb] at h1
          cases h1
        simpa [hb, retireIf] using hall
      · rw [instrs_cons (ho.retires (by rw [h1]; rfl))] at hall ⊢
        rw [List.cons_append] at hall
        simp only [Bool.true_or, Bool.true_and, if_true]
        have hone := hall.commit
        have hc1 : (instrAt l (idx s.rRobHeadPtr) s.tRobHead).writer = writerOf s.tRobHead := rfl
        rw [hc1, ← retireIf_eq_commit] at hone
        cases h2 : (s.ctl i).tRetireTwo
        · simpa [retireIf] using hone
        · rw [instrs_cons_two hp (tRetireTwo_tRetire h2).2] at hone ⊢
          rw [List.cons_append] at hone
          have htwo := hone.commit
          have hc2 : (instrAt l (idx s.rRobNextHeadPtr) s.tRobNextHead).writer =
            writerOf s.tRobNextHead := rfl
          rw [hc2, ← retireIf_eq_commit] at htwo
          simpa using htwo
  · by_cases hs : s.rState = .rat
    · exact renamer_rat (i := i) hs ▸ h.pinned.restore
    · rw [renamer_step hw ho.retires hs hp h.dqOk, renamerStep]
      have hal : ∀ {r : State ArchReg PrfPtr} {b : Bool} {a : ArchReg} {p : PrfPtr},
          r.Pinned 0 0 → (b = true → a ≠ 0) → (allocIf b a p r).Pinned 0 0 := by
        intro r b a p hr hb
        cases b
        · exact hr
        · exact hr.alloc (hb rfl) p
      have hre : ∀ {r : State ArchReg PrfPtr} {b : Bool},
          r.Pinned 0 0 → (retireIf b r).Pinned 0 0 := by
        intro r b hr
        cases b
        · exact hr
        · exact hr.retire
      refine hre (hre (hal (hal h.pinned fun hb => ?_) fun hb => ?_))
      · obtain ⟨h1, hv⟩ := Bool.and_eq_true _ _ |>.mp hb
        exact archReg_ne_zero (h.dqOk _ (tUop_mem h1)) hv
      · obtain ⟨h2, hv⟩ := Bool.and_eq_true _ _ |>.mp hb
        exact archReg_ne_zero (h.dqOk _ (tUop2_mem hp.toDqPtrs h2)) hv

theorem init_windowInv (rob : RobPtr → RobEntry) (bob : BitVec 2 → BobEntry) (dq : BitVec 2 → Uop) :
    (init rob bob dq).WindowInv l := by
  have hi := init_renameInv rob bob dq
  have hnil : instrs l (init rob bob dq) = [] :=
    contents_self (fun p => instrAt l p ((init rob bob dq).rRob p)) _
  have hin : (init rob bob dq).renamer.inflight = [] := by
    have hr : robView writerOf (init rob bob dq) = [] := contents_self _ _
    rw [renamer, hr]
    rfl
  refine ⟨hi.dqOk, hnil ▸ ⟨hi.wellFormed, hin, trivial⟩, hi.pinned, fun p hp => ?_⟩
  exact absurd hp (not_inRob_of_zero (occ_self (init rob bob dq).rRobHeadPtr) p)

/-! ### The uops in the ROB -/

/-- The decoded uops in the ROB, oldest first. -/
def uops (l : RobPtr → Slot) (s : Core) : List Uop := slotView (fun p _ => (l p).decoded) s

/-- The uops allocated in a cycle, as they were decoded. -/
def allocatedUops (s : Core) (i : CoreIn) : List Uop :=
  if (s.ctl i).tAlloc then (if (s.ctl i).tAllocTwo then [s.tUop, s.tUop2] else [s.tUop]) else []

theorem length_uops : (uops l s).length = s.robCount := by
  rw [uops, slotView, contents_length, robCount]

theorem uops_eq_nil : uops l s = [] ↔ s.robCount = 0 := by
  rw [← List.length_eq_zero_iff, length_uops]

theorem uops_step (hp : s.Ptrs) (hs : s.rState ≠ .rat) (hl : s.nLeaving i ≤ s.robCount) :
    uops (watchSlots l s i) (s.step i) = (uops l s).drop (s.nLeaving i) ++ s.allocatedUops i := by
  have hv := slotView_step (i := i) (f := fun p _ => (watchSlots l s i p).decoded)
    (fun _ => ⟨fun _ _ => rfl, fun _ _ => rfl⟩) hp hs hl
  have hsame : slotView (fun p _ => (watchSlots l s i p).decoded) s = uops l s := by
    unfold uops slotView
    exact contents_congr fun j hj =>
      congrArg Slot.decoded (watchSlots_of_inRob hp ⟨j, hj, rfl⟩)
  rw [uops, hv, hsame]
  congr 1
  unfold allocatedSlots allocatedUops
  cases h1 : (s.ctl i).tAlloc
  · rfl
  · cases h2 : (s.ctl i).tAllocTwo
    · simp [watchSlots_tail hp h1]
    · simp [watchSlots_tail hp h1, watchSlots_nextTail h2]

theorem uops_cons (he : s.tRobEmpty = false) : uops l s =
    (l (idx s.rRobHeadPtr)).decoded ::
      contents (fun p => (l p).decoded) (s.rRobHeadPtr + 1) s.rRobTailPtr := by
  rw [tRobEmpty, beq_eq_false_iff_ne] at he
  exact contents_pop (fun p => (l p).decoded) he

theorem uops_cons_two (hp : s.Ptrs) (he : s.tRobEmpty = false) (hn : s.tRobNextEmpty = false) :
    uops l s = (l (idx s.rRobHeadPtr)).decoded :: (l (idx s.rRobNextHeadPtr)).decoded ::
      contents (fun p => (l p).decoded) (s.rRobHeadPtr + 1 + 1) s.rRobTailPtr := by
  rw [tRobNextEmpty, beq_eq_false_iff_ne, hp.robNextHead] at hn
  rw [uops_cons he, hp.robNextHead]
  exact congrArg (List.cons _) (contents_pop (fun p => (l p).decoded) hn)

end Core
end Rv32Core
