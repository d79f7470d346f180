import Rv32Core.Core.Spec

/-! # The reorder buffer and the decode queue as lists

The pointer invariant (the `next` pointers run one ahead, neither queue holds more than its
capacity) and what one cycle does to the entries between head and tail: up to two leave at the
head, up to two arrive at the tail. -/

namespace Rv32Core

open RingBuffer

namespace Core

variable {s : Core} {i : CoreIn}

/-- The pointers of the decode queue are consistent. -/
structure DqPtrs (s : Core) : Prop where
  dqNextHead : s.rDqNextHeadPtr = s.rDqHeadPtr + 1
  dqNextTail : s.rDqNextTailPtr = s.rDqTailPtr + 1
  dqOcc : occ s.rDqHeadPtr s.rDqTailPtr ≤ 4

/-- The pointers of the ROB and of the decode queue are consistent. -/
structure Ptrs (s : Core) : Prop extends DqPtrs s where
  robNextHead : s.rRobNextHeadPtr = s.rRobHeadPtr + 1
  robNextTail : s.rRobNextTailPtr = s.rRobTailPtr + 1
  robOcc : occ s.rRobHeadPtr s.rRobTailPtr ≤ 32

/-- The entries that leave the head of the ROB in a cycle. -/
def nLeaving (s : Core) (i : CoreIn) : ℕ :=
  if (s.ctl i).tRetire || (s.ctl i).tBumpRobHead then
    (if (s.ctl i).tRetireTwo then 2 else 1)
  else 0

/-- The uops that leave the decode queue in a cycle. -/
def nAllocated (s : Core) (i : CoreIn) : ℕ :=
  if (s.ctl i).tAlloc then (if (s.ctl i).tAllocTwo then 2 else 1) else 0

/-- The entries allocated in a cycle. -/
def allocated (s : Core) (i : CoreIn) : List RobEntry :=
  if (s.ctl i).tAlloc then
    (if (s.ctl i).tAllocTwo then [s.tRobTail i, s.tRobNextTail i] else [s.tRobTail i])
  else []

/-- The uops decoded into the decode queue in a cycle. -/
def decoded (s : Core) (i : CoreIn) : List Uop :=
  if s.tPushDqTwo i then [decodeRiscv i.insn, decodeRiscv i.insnTwo]
  else if s.tPushDqOne i then [decodeRiscv i.insn] else []

/-! ### Allocation has room -/

theorem tAllocTwo_tAlloc (h : (s.ctl i).tAllocTwo = true) :
    (s.ctl i).tAlloc = true ∧ s.rState = .active ∧ s.allocTwoToo i = true := by
  rw [ctl_tAllocTwo] at h
  rw [ctl_tAlloc]
  cases hs : s.rState <;> simp only [hs] at h ⊢ <;>
    first | exact absurd h Bool.false_ne_true | skip
  rw [activeCtl_tAllocTwo, Bool.and_eq_true] at h
  exact ⟨h.1, trivial, h.2⟩

/-- What every allocation has tested. -/
theorem tAlloc_room (h : (s.ctl i).tAlloc = true) :
    s.tRobFull = false ∧ s.tDqEmpty = false ∧ i.tUqFull = false := by
  rw [ctl_tAlloc] at h
  cases hs : s.rState <;> simp only [hs] at h <;>
    first | exact absurd h Bool.false_ne_true | skip
  · rw [activeCtl_tAlloc, Bool.and_eq_true] at h
    obtain ⟨-, h⟩ := h
    split_ifs at h
    · simp only [allocOnRetire, Bool.and_eq_true, Bool.not_eq_true'] at h
      exact ⟨h.2.2.1.1.1.1.1, h.2.2.1.1.2, h.2.2.1.1.1.2⟩
    · simp only [allocNoRetire, Bool.and_eq_true, Bool.not_eq_true'] at h
      exact ⟨h.1.1.1.1.1, h.1.1.2, h.1.1.1.2⟩
  all_goals
    simp only [allocSerial, Bool.and_eq_true, Bool.not_eq_true'] at h
    exact ⟨h.1.1.1, h.2, h.1.1.2⟩

/-- In ACTIVE the first uop gets a register of its bank, and a slot of the branch buffer. -/
theorem tAlloc_active (hs : s.rState = .active) (h : (s.ctl i).tAlloc = true) :
    s.tEnoughIprfs = true ∧ s.tEnoughBob = true ∧ s.tUop.serializingOp = false := by
  rw [ctl_tAlloc] at h
  simp only [hs] at h
  rw [activeCtl_tAlloc, Bool.and_eq_true] at h
  obtain ⟨-, h⟩ := h
  split_ifs at h
  · simp only [allocOnRetire, Bool.and_eq_true, Bool.not_eq_true'] at h
    exact ⟨h.2.2.1.2, h.2.2.2, h.2.1⟩
  · simp only [allocNoRetire, Bool.and_eq_true, Bool.not_eq_true'] at h
    exact ⟨h.1.2, h.2, h.1.1.1.1.2⟩

theorem allocTwoToo_spec (h : s.allocTwoToo i = true) :
    s.tUop.isBr = false ∧ s.tUop2.serializingOp = false ∧ s.tDqNextEmpty = false ∧
      s.tRobNextFull = false ∧ i.tUqNextFull = false ∧ s.tEnoughNextIprfs = true := by
  simpa [allocTwoToo, and_assoc] using h

theorem Ptrs.room (hp : s.Ptrs) : occ s.rRobHeadPtr s.rRobTailPtr + s.nAllocated i ≤ 32 := by
  have h32 := hp.robOcc
  unfold nAllocated
  by_cases h : (s.ctl i).tAlloc = true
  · have hf : occ s.rRobHeadPtr s.rRobTailPtr < 2 ^ 5 :=
      (isFull_eq_false_iff h32).mp (tAlloc_room h).1
    by_cases h2 : (s.ctl i).tAllocTwo = true
    · obtain ⟨-, -, -, hn, -⟩ := allocTwoToo_spec (tAllocTwo_tAlloc h2).2.2
      have ho : occ s.rRobHeadPtr s.rRobNextTailPtr = occ s.rRobHeadPtr s.rRobTailPtr + 1 := by
        rw [hp.robNextTail]
        exact occ_tail_add _ _ (n := 1) (by omega)
      have := (isFull_eq_false_iff (by omega)).mp hn
      simp only [h, h2, if_true]
      omega
    · simp only [h, h2, if_true]
      simp only [Bool.false_eq_true, if_false]
      omega
  · simp only [h, Bool.false_eq_true, if_false]
    exact h32

theorem DqPtrs.avail (hp : s.DqPtrs) : s.nAllocated i ≤ occ s.rDqHeadPtr s.rDqTailPtr := by
  unfold nAllocated
  by_cases h : (s.ctl i).tAlloc = true
  · have hd := (tAlloc_room h).2.1
    rw [tDqEmpty, beq_eq_false_iff_ne] at hd
    have h1 : 0 < occ s.rDqHeadPtr s.rDqTailPtr := occ_pos_iff.mpr hd.symm
    by_cases h2 : (s.ctl i).tAllocTwo = true
    · obtain ⟨-, -, hn, -⟩ := allocTwoToo_spec (tAllocTwo_tAlloc h2).2.2
      rw [tDqNextEmpty, beq_eq_false_iff_ne, hp.dqNextHead] at hn
      have h2' : 0 < occ (s.rDqHeadPtr + 1) s.rDqTailPtr := occ_pos_iff.mpr hn.symm
      have ho : occ (s.rDqHeadPtr + 1) s.rDqTailPtr = occ s.rDqHeadPtr s.rDqTailPtr - 1 :=
        occ_head_add _ _ (n := 1) h1
      simp only [h, h2, if_true]
      omega
    · simp only [h, h2, if_true]
      simp only [Bool.false_eq_true, if_false]
      omega
  · simp only [h, Bool.false_eq_true, if_false]
    omega

/-! ### The ROB as a list -/

/-- The entries between head and tail, seen through `f`. -/
def robView {β : Type*} (f : RobEntry → β) (s : Core) : List β :=
  contents (fun p => f (s.rRob p)) s.rRobHeadPtr s.rRobTailPtr

/-- The entries between head and tail with their slots, seen through `f`. -/
def slotView {β : Type*} (f : RobPtr → RobEntry → β) (s : Core) : List β :=
  contents (fun p => f p (s.rRob p)) s.rRobHeadPtr s.rRobTailPtr

/-- A view that completions and memory answers do not change. -/
structure Stable {β : Type*} (f : RobEntry → β) : Prop where
  complete : ∀ b e, f (completeEntry b e) = f e
  mem : ∀ r e, f (memEntry r e) = f e

theorem Stable.nRob_slot {β : Type*} {f : RobPtr → RobEntry → β} (hf : ∀ p, Stable (f p))
    (hs : s.rState ≠ .rat) :
    (fun p => f p (s.nRob i p)) =
      ((fun p => f p (s.rRob p))
        |> writeIf (s.ctl i).tAlloc (idx s.rRobTailPtr) (f (idx s.rRobTailPtr) (s.tRobTail i))
        |> writeIf (s.ctl i).tAllocTwo (idx s.rRobNextTailPtr)
            (f (idx s.rRobNextTailPtr) (s.tRobNextTail i))) := by
  funext p
  have hc : (s.ctl i).tClrRob = false := by rw [ctl_tClrRob, decide_eq_false hs]
  simp only [Core.nRob, hc, Bool.false_eq_true, if_false]
  rw [modifyIf_apply_congr _ _ _ _ (f p) ((hf p).mem _),
    modifyIf_apply_congr _ _ _ _ (f p) ((hf p).complete _),
    modifyIf_apply_congr _ _ _ _ (f p) ((hf p).complete _), writeIf_apply, writeIf_apply,
    writeIf_apply, writeIf_apply]
  split_ifs with h2 h1
  · rw [h2.2]
  · rw [h1.2]
  · rfl

theorem Stable.nRob {β : Type*} {f : RobEntry → β} (hf : Stable f) (hs : s.rState ≠ .rat) :
    (fun p => f (s.nRob i p)) =
      ((fun p => f (s.rRob p))
        |> writeIf (s.ctl i).tAlloc (idx s.rRobTailPtr) (f (s.tRobTail i))
        |> writeIf (s.ctl i).tAllocTwo (idx s.rRobNextTailPtr) (f (s.tRobNextTail i))) :=
  Stable.nRob_slot (fun _ => hf) hs

theorem bumpTail_eq (p : BitVec 6) : s.bumpTail i p = p + BitVec.ofNat 6 (s.nAllocated i) := by
  unfold bumpTail nAllocated
  cases h : (s.ctl i).tAlloc <;> cases h2 : (s.ctl i).tAllocTwo <;> simp [h, h2]

theorem bumpDqHead_eq (p : BitVec 3) :
    s.bumpDqHead i p = p + BitVec.ofNat 3 (s.nAllocated i) := by
  unfold bumpDqHead nAllocated
  cases h : (s.ctl i).tAlloc <;> cases h2 : (s.ctl i).tAllocTwo <;> simp [h, h2]

theorem bumpHead_eq (p : BitVec 6) : s.bumpHead i p = p + BitVec.ofNat 6 (s.nLeaving i) := by
  unfold bumpHead nLeaving
  cases h : (s.ctl i).tRetire <;> cases hb : (s.ctl i).tBumpRobHead <;>
    cases h2 : (s.ctl i).tRetireTwo <;> simp [h, hb, h2]

/-- The entries allocated in a cycle, with the slots they get. -/
def allocatedSlots (s : Core) (i : CoreIn) : List (RobPtr × RobEntry) :=
  if (s.ctl i).tAlloc then
    (if (s.ctl i).tAllocTwo then
      [(idx s.rRobTailPtr, s.tRobTail i), (idx s.rRobNextTailPtr, s.tRobNextTail i)]
    else [(idx s.rRobTailPtr, s.tRobTail i)])
  else []

theorem map_allocatedSlots {β : Type*} (f : RobEntry → β) :
    (s.allocatedSlots i).map (fun x => f x.2) = (s.allocated i).map f := by
  unfold allocatedSlots allocated
  split_ifs <;> rfl

/-- **One cycle of the ROB**: entries leave at the head and arrive at the tail. -/
theorem slotView_step {β : Type*} {f : RobPtr → RobEntry → β} (hf : ∀ p, Stable (f p))
    (hp : s.Ptrs) (hs : s.rState ≠ .rat) (hl : s.nLeaving i ≤ occ s.rRobHeadPtr s.rRobTailPtr) :
    slotView f (s.step i) =
      (slotView f s).drop (s.nLeaving i) ++ (s.allocatedSlots i).map fun x => f x.1 x.2 := by
  have hc : (s.ctl i).tClrRob = false := by rw [ctl_tClrRob, decide_eq_false hs]
  have hroom := hp.room (i := i)
  have hh : (s.step i).rRobHeadPtr = s.rRobHeadPtr + BitVec.ofNat 6 (s.nLeaving i) := by
    rw [← bumpHead_eq]
    exact if_neg (by rw [hc]; exact Bool.false_ne_true)
  have ht : (s.step i).rRobTailPtr = s.rRobTailPtr + BitVec.ofNat 6 (s.nAllocated i) := by
    rw [← bumpTail_eq]
    exact if_neg (by rw [hc]; exact Bool.false_ne_true)
  have hb : (fun p => f p ((s.step i).rRob p)) = _ := Stable.nRob_slot hf hs
  -- the pushes, at the old head
  have hpush : contents (fun p => f p ((s.step i).rRob p)) s.rRobHeadPtr
      (s.rRobTailPtr + BitVec.ofNat 6 (s.nAllocated i)) =
      slotView f s ++ (s.allocatedSlots i).map fun x => f x.1 x.2 := by
    rw [hb, hp.robNextTail]
    unfold nAllocated at hroom ⊢
    unfold allocatedSlots slotView
    rw [hp.robNextTail]
    cases h1 : (s.ctl i).tAlloc
    · have h2 : (s.ctl i).tAllocTwo = false := by
        by_contra h2
        rw [(tAllocTwo_tAlloc (Bool.not_eq_false _ |>.mp h2)).1] at h1
        cases h1
      simp [h2]
    · rw [h1] at hroom
      cases h2 : (s.ctl i).tAllocTwo
      · simp only [h2, if_true, Bool.false_eq_true, if_false] at hroom
        simp only [writeIf_true, writeIf_false, if_true, Bool.false_eq_true, if_false]
        exact contents_push (k := 5) _ _ (by omega)
      · simp only [h2, if_true] at hroom
        simp only [writeIf_true, if_true]
        exact contents_push_two (k := 5) _ _ _ (by omega)
  have ho : occ s.rRobHeadPtr (s.rRobTailPtr + BitVec.ofNat 6 (s.nAllocated i)) =
      occ s.rRobHeadPtr s.rRobTailPtr + s.nAllocated i := occ_tail_add _ _ (by omega)
  rw [slotView, hh, ht, contents_drop _ (by omega), hpush, List.drop_append_of_le_length]
  rw [slotView, contents_length]
  exact hl

theorem robView_step {β : Type*} {f : RobEntry → β} (hf : Stable f) (hp : s.Ptrs)
    (hs : s.rState ≠ .rat) (hl : s.nLeaving i ≤ occ s.rRobHeadPtr s.rRobTailPtr) :
    robView f (s.step i) = (robView f s).drop (s.nLeaving i) ++ (s.allocated i).map f := by
  rw [← map_allocatedSlots]
  exact slotView_step (fun _ => hf) hp hs hl

theorem robView_rat {β : Type*} (f : RobEntry → β) (hs : s.rState = .rat) :
    robView f (s.step i) = [] := by
  have hc : (s.ctl i).tClrRob = true := by rw [ctl_tClrRob, decide_eq_true hs]
  have hh : (s.step i).rRobHeadPtr = 0 := if_pos hc
  have ht : (s.step i).rRobTailPtr = 0 := if_pos hc
  rw [robView, hh, ht, contents_self]

/-! ### The decode queue as a list -/

/-- The decoded uops not yet allocated. -/
def dqView (s : Core) : List Uop := contents s.rDq s.rDqHeadPtr s.rDqTailPtr

theorem tPushDqTwo_tPushDqOne (h : s.tPushDqTwo i = true) :
    s.tPushDqOne i = true ∧ s.tDqNextFull = false := by
  simp only [tPushDqTwo, tPushDqOne, Bool.and_eq_true, Bool.not_eq_true'] at h ⊢
  exact ⟨⟨h.1.1.1, h.1.1.2⟩, h.1.2⟩

theorem bumpDqTail_eq (p : BitVec 3) :
    s.bumpDqTail i p = p + BitVec.ofNat 3 (s.decoded i).length := by
  unfold bumpDqTail decoded
  cases h2 : s.tPushDqTwo i
  · cases h1 : s.tPushDqOne i
    · simp
    · rfl
  · rfl

theorem DqPtrs.dqRoom (hp : s.DqPtrs) :
    occ s.rDqHeadPtr s.rDqTailPtr + (s.decoded i).length ≤ 4 := by
  have h4 := hp.dqOcc
  unfold decoded
  cases h2 : s.tPushDqTwo i
  · cases h1 : s.tPushDqOne i
    · simpa using h4
    · simp only [tPushDqOne, Bool.and_eq_true, Bool.not_eq_true'] at h1
      have := (isFull_eq_false_iff (k := 2) h4).mp h1.2
      simp
      omega
  · obtain ⟨h1, hn⟩ := tPushDqTwo_tPushDqOne h2
    simp only [tPushDqOne, Bool.and_eq_true, Bool.not_eq_true'] at h1
    have h3 := (isFull_eq_false_iff (k := 2) h4).mp h1.2
    have ho : occ s.rDqHeadPtr s.rDqNextTailPtr = occ s.rDqHeadPtr s.rDqTailPtr + 1 := by
      rw [hp.dqNextTail]
      exact occ_tail_add _ _ (n := 1) (by omega)
    have := (isFull_eq_false_iff (k := 2) (by omega)).mp hn
    simp
    omega

/-- **One cycle of the decode queue**, unless it is cleared. -/
theorem dqView_step (hp : s.DqPtrs) (hc : s.clrDq i = false) :
    dqView (s.step i) = (dqView s).drop (s.nAllocated i) ++ s.decoded i := by
  have hav := hp.avail (i := i)
  have hroom := hp.dqRoom (i := i)
  have hh : (s.step i).rDqHeadPtr = s.rDqHeadPtr + BitVec.ofNat 3 (s.nAllocated i) := by
    rw [← bumpDqHead_eq]
    exact if_neg (by rw [hc]; exact Bool.false_ne_true)
  have ht : (s.step i).rDqTailPtr = s.rDqTailPtr + BitVec.ofNat 3 (s.decoded i).length := by
    rw [← bumpDqTail_eq]
    exact if_neg (by rw [hc]; exact Bool.false_ne_true)
  have hpush : contents (s.step i).rDq s.rDqHeadPtr
      (s.rDqTailPtr + BitVec.ofNat 3 (s.decoded i).length) = dqView s ++ s.decoded i := by
    change contents (s.nDq i) _ _ = _
    unfold nDq dqView
    rw [hp.dqNextTail]
    unfold decoded at hroom ⊢
    cases h2 : s.tPushDqTwo i
    · rw [h2] at hroom
      cases h1 : s.tPushDqOne i
      · simp
      · simp only [h1, if_true, Bool.false_eq_true, if_false, List.length_singleton] at hroom
        simp only [writeIf_true, writeIf_false, if_true, Bool.false_eq_true, if_false]
        exact contents_push (k := 2) _ _ (by omega)
    · simp only [h2, if_true, List.length_cons, List.length_nil] at hroom
      simp only [(tPushDqTwo_tPushDqOne h2).1, writeIf_true, if_true]
      exact contents_push_two (k := 2) _ _ _ (by omega)
  have ho : occ s.rDqHeadPtr (s.rDqTailPtr + BitVec.ofNat 3 (s.decoded i).length) =
      occ s.rDqHeadPtr s.rDqTailPtr + (s.decoded i).length := occ_tail_add _ _ (by omega)
  rw [dqView, hh, ht, contents_drop _ (by omega), hpush, List.drop_append_of_le_length]
  rw [dqView, contents_length]
  exact hav

theorem dqView_clr (hc : s.clrDq i = true) : dqView (s.step i) = [] := by
  have hh : (s.step i).rDqHeadPtr = 0 := if_pos hc
  have ht : (s.step i).rDqTailPtr = 0 := if_pos hc
  rw [dqView, hh, ht, contents_self]

/-! ### The pointer invariant -/

theorem init_ptrs (rob : RobPtr → RobEntry) (bob : BitVec 2 → BobEntry) (dq : BitVec 2 → Uop) :
    (init rob bob dq).Ptrs where
  robNextHead := rfl
  robNextTail := rfl
  robOcc := by simp [init]
  dqNextHead := rfl
  dqNextTail := rfl
  dqOcc := by simp [init]

private theorem add_swap {n : ℕ} (p d : BitVec n) : p + 1 + d = p + d + 1 := by
  rw [BitVec.add_assoc, BitVec.add_comm 1, BitVec.add_assoc]

theorem DqPtrs.step (hp : s.DqPtrs) : (s.step i).DqPtrs := by
  have h4 := hp.dqRoom (i := i)
  have hav := hp.avail (i := i)
  have hdq : occ (s.step i).rDqHeadPtr (s.step i).rDqTailPtr ≤ 4 := by
    change occ (s.nDqHeadPtr i) (s.nDqTailPtr i) ≤ 4
    unfold nDqHeadPtr nDqTailPtr
    split_ifs
    · decide
    · have ht : occ s.rDqHeadPtr (s.rDqTailPtr + BitVec.ofNat 3 (s.decoded i).length) =
          occ s.rDqHeadPtr s.rDqTailPtr + (s.decoded i).length := occ_tail_add _ _ (by omega)
      rw [bumpDqHead_eq, bumpDqTail_eq, occ_head_add _ _ (by omega), ht]
      omega
  refine ⟨?_, ?_, hdq⟩
  · change s.nDqNextHeadPtr i = s.nDqHeadPtr i + 1
    unfold nDqNextHeadPtr nDqHeadPtr
    split_ifs
    · rfl
    · rw [bumpDqHead_eq, bumpDqHead_eq, hp.dqNextHead, add_swap]
  · change s.nDqNextTailPtr i = s.nDqTailPtr i + 1
    unfold nDqNextTailPtr nDqTailPtr
    split_ifs
    · rfl
    · rw [bumpDqTail_eq, bumpDqTail_eq, hp.dqNextTail, add_swap]

theorem Ptrs.step (hp : s.Ptrs) (hl : s.nLeaving i ≤ occ s.rRobHeadPtr s.rRobTailPtr) :
    (s.step i).Ptrs := by
  have h32 := hp.room (i := i)
  have hrob : occ (s.step i).rRobHeadPtr (s.step i).rRobTailPtr ≤ 32 := by
    change occ (s.nRobHeadPtr i) (s.nRobTailPtr i) ≤ 32
    unfold nRobHeadPtr nRobTailPtr
    split_ifs
    · decide
    · have ht : occ s.rRobHeadPtr (s.rRobTailPtr + BitVec.ofNat 6 (s.nAllocated i)) =
          occ s.rRobHeadPtr s.rRobTailPtr + s.nAllocated i := occ_tail_add _ _ (by omega)
      rw [bumpHead_eq, bumpTail_eq, occ_head_add _ _ (by omega), ht]
      omega
  refine ⟨hp.toDqPtrs.step, ?_, ?_, hrob⟩
  · change s.nRobNextHeadPtr i = s.nRobHeadPtr i + 1
    unfold nRobNextHeadPtr nRobHeadPtr
    split_ifs
    · rfl
    · rw [bumpHead_eq, bumpHead_eq, hp.robNextHead, add_swap]
  · change s.nRobNextTailPtr i = s.nRobTailPtr i + 1
    unfold nRobNextTailPtr nRobTailPtr
    split_ifs
    · rfl
    · rw [bumpTail_eq, bumpTail_eq, hp.robNextTail, add_swap]

end Core
end Rv32Core
