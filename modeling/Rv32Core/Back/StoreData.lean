import Rv32Core.Back.Tokens
import Rv32Core.Exec.StoreData

/-! # The store data of the ROB

The store data queue of the execution unit holds the slots of entries of the ROB whose store data
is not complete.  A flush does not touch it, and RAT empties it with the ROB, so this holds
whatever was flushed or retired. -/

namespace Rv32Core

open Clocked RingBuffer

namespace Core

variable {s : Core} {i : CoreIn}

/-- The slots of the stores sent to the execution unit in a cycle. -/
def sentData (s : Core) (i : CoreIn) : Multiset RobPtr :=
  single (s.tPush1 i && Exec.hasData s.tUop) (idx s.rRobTailPtr) +
    single (s.tPush2 i && Exec.hasData s.tUop2) (idx s.rRobNextTailPtr)

theorem mem_sentData {p : RobPtr} : p ∈ s.sentData i ↔
    (s.tPush1 i = true ∧ Exec.hasData s.tUop = true ∧ idx s.rRobTailPtr = p) ∨
      (s.tPush2 i = true ∧ Exec.hasData s.tUop2 = true ∧ idx s.rRobNextTailPtr = p) := by
  rw [sentData, Multiset.mem_add, mem_single, mem_single, Bool.and_eq_true, Bool.and_eq_true,
    and_assoc, and_assoc]

theorem sentData_fresh (hp : s.Ptrs) : (s.sentData i).Nodup ∧ ∀ p ∈ s.sentData i, ¬s.InRob p := by
  have hsub : s.sentData i ≤ s.sentOff i := by
    unfold sentData sentOff
    refine add_le_add ?_ ?_
    · cases s.tPush1 i <;> cases Exec.hasData s.tUop <;> simp
    · cases s.tPush2 i <;> cases Exec.hasData s.tUop2 <;> simp
  obtain ⟨hn, hf⟩ := sentOff_fresh (i := i) hp
  exact ⟨Multiset.nodup_of_le hsub hn, fun p hp => hf p (Multiset.mem_of_le hsub hp)⟩

theorem sdComplete_step (hs : s.rState ≠ .rat) (p : RobPtr) : (s.step i).rRobSdComplete p =
    if i.tCoreStoreDataPtrValid = true ∧ p = i.tCoreStoreDataPtr then true
    else if (s.ctl i).tAllocTwo = true ∧ p = idx s.rRobNextTailPtr then !Exec.hasData s.tUop2
    else if (s.ctl i).tAlloc = true ∧ p = idx s.rRobTailPtr then !Exec.hasData s.tUop
    else s.rRobSdComplete p := by
  have hc : (s.ctl i).tClrRob = false := by rw [ctl_tClrRob, decide_eq_false hs]
  show s.nRobSdComplete i p = _
  rw [nRobSdComplete, hc, if_neg Bool.false_ne_true, writeIf_apply, writeIf_apply, writeIf_apply]
  rfl

/-- A slot of the ROB that is not reported on keeps its store data bit. -/
theorem sdComplete_stay (hp : s.Ptrs) {p : RobPtr} (hr : s.InRob p) (hs : s.rState ≠ .rat)
    (hn : i.tCoreStoreDataPtrValid = true → i.tCoreStoreDataPtr ≠ p) :
    (s.step i).rRobSdComplete p = s.rRobSdComplete p := by
  have h1 : ¬(i.tCoreStoreDataPtrValid = true ∧ p = i.tCoreStoreDataPtr) := fun hx =>
    hn hx.1 hx.2.symm
  have h2 : ¬((s.ctl i).tAllocTwo = true ∧ p = idx s.rRobNextTailPtr) := fun hx =>
    hp.nextTail_fresh hx.1 (hx.2 ▸ hr)
  have h3 : ¬((s.ctl i).tAlloc = true ∧ p = idx s.rRobTailPtr) := fun hx =>
    hp.tail_fresh hx.1 (hx.2 ▸ hr)
  rw [sdComplete_step hs, if_neg h1, if_neg h2, if_neg h3]

theorem inRob_of_sdIncomplete (hp : s.Ptrs) (hs : s.rState ≠ .rat)
    (hl : s.nLeaving i ≤ occ s.rRobHeadPtr s.rRobTailPtr)
    (hw : s.rState = .writeCause → s.rRobSdComplete (idx s.rRobHeadPtr) = true)
    {p : RobPtr} (hr : s.InRob p) (hd : s.rRobSdComplete p = false) : (s.step i).InRob p := by
  obtain ⟨n, hn, rfl⟩ := hr
  refine inRob_step hp hs hl ?_ (by omega)
  by_contra hlt
  have hc : s.rRobSdComplete (slot s.rRobHeadPtr n) = true := by
    by_cases hx : s.rState = .writeCause
    · have hone := (halted_moves (i := i) (.inr (.inl (.inr hx)))).2
      rw [if_pos hx] at hone
      rw [show n = 0 by omega, slot_zero]
      exact hw hx
    · exact (leaving_complete (i := i) hx hp (by omega)).1
  rw [hd] at hc
  cases hc

end Core

namespace Back

variable {s : Back} {i : BackIn} {env : Back → BackIn → Prop}

/-- The stores whose data is waited for. -/
structure DataInv (s : Back) : Prop where
  nodup : s.exec.dataSlots.Nodup
  waits : ∀ p ∈ s.exec.dataSlots, s.core.InRob p ∧ s.core.rRobSdComplete p = false
  head : s.core.rState = .archFault ∨ Core.Records s.core.rState →
    s.core.rRobSdComplete (idx s.core.rRobHeadPtr) = true

theorem pushedData_eq : Exec.pushedData (s.execIn i) = s.core.sentData (s.coreIn i) := by
  have hrob := fun h => s.core.tAllocUop_robPtr _ (Core.tPush_alloc (i := s.coreIn i).1 h)
  have hrob2 := fun h => s.core.tAllocUop2_robPtr _ (Core.tPush_alloc (i := s.coreIn i).2 h)
  have hdata : Exec.hasData (s.core.tAllocUop (s.coreIn i)) = Exec.hasData s.core.tUop := rfl
  have hdata2 : Exec.hasData (s.core.tAllocUop2 (s.coreIn i)) = Exec.hasData s.core.tUop2 := rfl
  rw [Exec.pushedData_eq, Exec.accepted_eq, pushedUops_eq, List.filter_append, List.map_append,
    ← Multiset.coe_add, Core.sentData]
  congr 1
  · cases h : s.core.tPush1 (s.coreIn i) <;> cases hd : Exec.hasData s.core.tUop <;> simp [*]
  · cases h : s.core.tPush2 (s.coreIn i) <;> cases hd : Exec.hasData s.core.tUop2 <;> simp [*]

/-- The store data queue is emptied in RAT. -/
theorem memDqClr_eq : (s.execIn i).memDqClr = decide (s.core.rState = .rat) := Core.ctl_tClrRob

theorem DataInv.head_step (h : s.DataInv)
    (hn : (s.step i).core.rState = .archFault ∨ Core.Records (s.step i).core.rState) :
    (s.step i).core.rRobSdComplete (idx (s.step i).core.rRobHeadPtr) = true := by
  obtain ⟨hs, hal, hle, hd⟩ : s.core.rState ≠ .rat ∧ s.core.nAllocated (s.coreIn i) = 0 ∧
      s.core.nLeaving (s.coreIn i) = 0 ∧
      s.core.rRobSdComplete (idx s.core.rRobHeadPtr) = true := by
    rcases hn with hn | hn
    · obtain ⟨hs, hcan, hal, hle⟩ := Core.ctl_archFault (s := s.core) (i := s.coreIn i) hn
      rw [Core.tCanRetireRobHead, Bool.and_eq_true] at hcan
      exact ⟨by rw [hs]; decide, hal, hle, (Bool.and_eq_true _ _ |>.mp hcan.1).1⟩
    · have hfrom := Core.ctl_records (s := s.core) (i := s.coreIn i) hn
      have hne : s.core.rState ≠ .rat ∧ s.core.rState ≠ .writeCause := by
        rcases hfrom with hs | hs <;> rw [hs] <;> decide
      have hmove := Core.halted_moves (s := s.core) (i := s.coreIn i)
        (.inr (hfrom.elim .inr fun hs => .inl (.inl hs)))
      rw [if_neg hne.2] at hmove
      exact ⟨hne.1, hmove.1, hmove.2, h.head (hfrom.imp_right .inl)⟩
  have hno : ∀ h1 : (s.core.ctl (s.coreIn i)).tAlloc = true, False := fun h1 => by
    rw [Core.nAllocated, if_pos h1] at hal
    split_ifs at hal
  have hhead : (s.step i).core.rRobHeadPtr = s.core.rRobHeadPtr := Core.robHead_step hs hle
  show (s.core.step (s.coreIn i)).rRobSdComplete (idx (s.step i).core.rRobHeadPtr) = true
  rw [hhead, Core.sdComplete_step hs]
  split_ifs with h1 h2 h3
  · rfl
  · exact (hno (Core.tAllocTwo_tAlloc h2.1).1).elim
  · exact (hno h3.1).elim
  · exact hd

theorem DataInv.step (h : s.DataInv) (ho : s.core.Occupied) (hre : backMachine.Reach env s) :
    (s.step i).DataInv := by
  by_cases hs : s.core.rState = .rat
  · have h0 : (s.step i).exec.dataSlots = 0 :=
      Exec.dataSlots_clr (by rw [memDqClr_eq, decide_eq_true hs])
    refine ⟨h0 ▸ Multiset.nodup_zero, fun p hp => ?_, h.head_step⟩
    rw [h0] at hp
    exact absurd hp (Multiset.notMem_zero p)
  · obtain ⟨l, hl⟩ := (reach_exec hre).exists_observed Exec.emptyLog Exec.watchQueues
    have hmove := (Exec.queuesInv_of_reach hl).dataSlots_step (i := s.execIn i) polite
      (by rw [memDqClr_eq, decide_eq_false hs])
    rw [pushedData_eq] at hmove
    obtain ⟨hsn, hfresh⟩ := Core.sentData_fresh (i := s.coreIn i) ho.ptrs
    have hnodup : (s.exec.dataSlots + s.core.sentData (s.coreIn i)).Nodup :=
      Multiset.nodup_add.mpr ⟨h.nodup, hsn,
        Multiset.disjoint_left.mpr fun hp hm => hfresh _ hm (h.waits _ hp).1⟩
    have hnodup' := hnodup
    rw [← hmove] at hnodup'
    obtain ⟨hn, -, hdis⟩ := Multiset.nodup_add.mp hnodup'
    have hlv := ho.nLeaving_le (i := s.coreIn i)
    refine ⟨hn, fun p hp => ?_, h.head_step⟩
    have hrep : (s.coreIn i).tCoreStoreDataPtrValid = true → (s.coreIn i).tCoreStoreDataPtr ≠ p :=
      fun hv he => Multiset.disjoint_left.mp hdis hp (mem_single.mpr ⟨hv, he⟩)
    have hin : p ∈ s.exec.dataSlots + s.core.sentData (s.coreIn i) := by
      rw [← hmove]
      exact Multiset.mem_add.mpr (.inl hp)
    rcases Multiset.mem_add.mp hin with hin | hin
    · obtain ⟨hr, hd⟩ := h.waits p hin
      refine ⟨Core.inRob_of_sdIncomplete ho.ptrs hs hlv
        (fun hx => h.head (.inr (.inr hx))) hr hd, ?_⟩
      exact (Core.sdComplete_stay ho.ptrs hr hs hrep).trans hd
    · refine ⟨?_, ?_⟩
      · rcases Core.mem_sentData.mp hin with ⟨hp1, -, rfl⟩ | ⟨hp2, -, rfl⟩
        · exact Core.inRob_tail ho.ptrs hlv (Core.tPush_alloc.1 hp1)
        · exact Core.inRob_nextTail ho.ptrs hlv (Core.tPush_alloc.2 hp2)
      · show (s.core.step (s.coreIn i)).rRobSdComplete p = false
        rw [Core.sdComplete_step hs, if_neg fun hx => hrep hx.1 hx.2.symm]
        rcases Core.mem_sentData.mp hin with ⟨hp1, hd1, rfl⟩ | ⟨hp2, hd2, rfl⟩
        · rw [if_neg fun hx => ho.ptrs.nextTail_ne hx.2.symm,
            if_pos ⟨Core.tPush_alloc.1 hp1, rfl⟩, hd1]
          rfl
        · rw [if_pos ⟨Core.tPush_alloc.2 hp2, rfl⟩, hd2]
          rfl

end Back
end Rv32Core
