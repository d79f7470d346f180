import Mathlib.Data.List.ReduceOption
import Rv32Core.Core.Inflight

/-! # The branch order buffer

Every branch in the ROB has an entry in the branch order buffer, which has room for four.  An
allocated branch asks for room only when it is the first uop of its cycle; the second uop of a
pair does not, and enters a full buffer.  As long as that does not happen (`PairRoom`) the buffer
lists the branches of the ROB in order, in every run without an architectural fault. -/

namespace Rv32Core

open RingBuffer

namespace Core

variable {s : Core} {i : CoreIn}

/-! ### The branches of the ROB and the buffer -/

/-- A ROB slot, if its entry is a branch. -/
def branchAt (p : RobPtr) (e : RobEntry) : Option RobPtr := if e.isBr then some p else none

/-- The slots of the branches in the ROB, oldest first. -/
def branchSlots (s : Core) : List RobPtr := (slotView branchAt s).reduceOption

/-- The entries of the branch order buffer from head to tail. -/
def bobView (s : Core) : List BobEntry := contents s.rBob s.rBobHeadPtr s.rBobTailPtr

/-- The buffer lists the branches in the ROB, and holds at most `N_BOB_ENTRIES` of them. -/
structure BobOk (s : Core) : Prop where
  count : s.branchSlots.length = (s.rBobTailPtr - s.rBobHeadPtr).toNat
  capacity : s.branchSlots.length ≤ 4
  order : s.bobView = s.branchSlots.map fun p => ⟨true, p⟩

/-- A branch leaves the head of the ROB. -/
def branchLeaves (s : Core) (i : CoreIn) : Bool :=
  (((s.ctl i).tRetire || (s.ctl i).tBumpRobHead) && s.tRobHead.isBr) ||
    ((s.ctl i).tRetireTwo && s.tRobNextHead.isBr)

/-- The slot of the branch allocated in a cycle. -/
def branchEnters (s : Core) (i : CoreIn) : Option RobPtr :=
  if (s.ctl i).tAllocTwo then branchAt (idx s.rRobNextTailPtr) (s.tRobNextTail i)
  else if (s.ctl i).tAlloc then branchAt (idx s.rRobTailPtr) (s.tRobTail i)
  else none

/-- When the second uop of a pair is a branch, the buffer has room for it or a branch leaves. -/
def PairRoom (s : Core) (i : CoreIn) : Prop :=
  (s.ctl i).tAllocTwo = true → s.tUop2.isBr = true →
    s.tBobFull = false ∨ s.branchLeaves i = true

/-- No slot of a branch that stays in flight is overwritten. -/
def KeepsBob (s : Core) (i : CoreIn) : Prop :=
  s.rState ≠ .rat → ∀ n, (if s.branchLeaves i then 1 else 0) ≤ n →
    n < occ s.rBobHeadPtr s.rBobTailPtr →
    s.nBob i (slot s.rBobHeadPtr n) = s.rBob (slot s.rBobHeadPtr n)

/-! ### One cycle of the ROB's branches -/

theorem branchAt_stable (p : RobPtr) : Stable (branchAt p) := ⟨fun _ _ => rfl, fun _ _ => rfl⟩

theorem branches_left (hp : s.Ptrs) (hr : s.RetiresEntry i) :
    ((slotView branchAt s).drop (s.nLeaving i)).reduceOption =
      s.branchSlots.drop (if s.branchLeaves i then 1 else 0) := by
  unfold nLeaving branchSlots branchLeaves
  by_cases h : ((s.ctl i).tRetire || (s.ctl i).tBumpRobHead) = true
  · have he := hr h
    rw [tRobEmpty, beq_eq_false_iff_ne] at he
    have hpop : slotView branchAt s = branchAt (idx s.rRobHeadPtr) s.tRobHead ::
        contents (fun p => branchAt p (s.rRob p)) (s.rRobHeadPtr + 1) s.rRobTailPtr :=
      contents_pop _ he
    rw [if_pos h, h, Bool.true_and, hpop]
    by_cases h2 : (s.ctl i).tRetireTwo = true
    · obtain ⟨-, hb, -⟩ := tRetireTwo_spec h2
      have hn := (tRetireTwo_tRetire h2).2
      rw [tRobNextEmpty, beq_eq_false_iff_ne, hp.robNextHead] at hn
      have hhead : branchAt (idx s.rRobHeadPtr) s.tRobHead = none := by
        rw [branchAt, hb]
        rfl
      rw [if_pos h2, h2, hb, hhead, Bool.false_or, Bool.true_and, contents_pop _ hn,
        List.drop_succ_cons, List.drop_succ_cons, List.drop_zero, List.reduceOption_cons_of_none,
        ← hp.robNextHead]
      change _ = (branchAt (idx s.rRobNextHeadPtr) s.tRobNextHead :: _).reduceOption.drop _
      cases hb2 : s.tRobNextHead.isBr
      · simp [branchAt, hb2]
      · simp [branchAt, hb2]
    · rw [if_neg h2, Bool.eq_false_iff.mpr h2, Bool.false_and, Bool.or_false, List.drop_succ_cons,
        List.drop_zero]
      cases hb : s.tRobHead.isBr
      · simp [branchAt, hb]
      · simp [branchAt, hb]
  · have h2 : (s.ctl i).tRetireTwo = false := by
      by_contra h2
      rw [(tRetireTwo_tRetire (Bool.not_eq_false _ |>.mp h2)).1, Bool.true_or] at h
      exact h rfl
    rw [if_neg h, h2, Bool.eq_false_iff.mpr h]
    rfl

theorem branches_entered : ((s.allocatedSlots i).map fun x => branchAt x.1 x.2).reduceOption =
    (s.branchEnters i).toList := by
  unfold allocatedSlots branchEnters
  cases h2 : (s.ctl i).tAllocTwo
  · cases h1 : (s.ctl i).tAlloc
    · rfl
    · exact List.reduceOption_singleton _
  · obtain ⟨h1, -, htoo⟩ := tAllocTwo_tAlloc h2
    have hfirst : branchAt (idx s.rRobTailPtr) (s.tRobTail i) = none := by
      have hb : (s.tRobTail i).isBr = false := (allocTwoToo_spec htoo).1
      rw [branchAt, hb]
      rfl
    simp only [h1, if_true, List.map_cons, List.map_nil, hfirst]
    exact List.reduceOption_singleton _

theorem branchSlots_step (hp : s.Ptrs) (hs : s.rState ≠ .rat) (hr : s.RetiresEntry i) :
    (s.step i).branchSlots =
      s.branchSlots.drop (if s.branchLeaves i then 1 else 0) ++ (s.branchEnters i).toList := by
  rw [branchSlots, slotView_step branchAt_stable hp hs (hr.nLeaving_le hp),
    List.reduceOption_append, branches_left hp hr, branches_entered]

/-! ### One cycle of the buffer -/

/-- The three cases of an allocation, as the buffer tests them. -/
theorem branchEnters_cases (s : Core) (i : CoreIn) :
    ((s.ctl i).tAllocTwo = true ∧ (s.ctl i).tAlloc = true ∧ s.tUop.isBr = false ∧
      s.branchEnters i = if s.tUop2.isBr then some (idx s.rRobNextTailPtr) else none) ∨
    ((s.ctl i).tAllocTwo = false ∧ (s.ctl i).tAlloc = true ∧
      s.branchEnters i = if s.tUop.isBr then some (idx s.rRobTailPtr) else none) ∨
    ((s.ctl i).tAllocTwo = false ∧ (s.ctl i).tAlloc = false ∧ s.branchEnters i = none) := by
  unfold branchEnters
  cases h2 : (s.ctl i).tAllocTwo
  · cases h1 : (s.ctl i).tAlloc
    · exact .inr (.inr ⟨rfl, rfl, rfl⟩)
    · exact .inr (.inl ⟨rfl, rfl, rfl⟩)
  · obtain ⟨h1, -, htoo⟩ := tAllocTwo_tAlloc h2
    exact .inl ⟨rfl, h1, (allocTwoToo_spec htoo).1, rfl⟩

theorem nBobHeadPtr_eq (hs : s.rState ≠ .rat) : s.nBobHeadPtr i =
    s.rBobHeadPtr + BitVec.ofNat 3 (if s.branchLeaves i then 1 else 0) := by
  have hc : (s.ctl i).tClrRob = false := by rw [ctl_tClrRob, decide_eq_false hs]
  unfold nBobHeadPtr branchLeaves
  simp only [hc, Bool.false_eq_true, if_false]
  cases h : ((s.ctl i).tRetire || (s.ctl i).tBumpRobHead) && s.tRobHead.isBr
  · cases h2 : (s.ctl i).tRetireTwo && s.tRobNextHead.isBr
    · simp
    · rfl
  · rfl

/-- A branch that enters is written at the tail. -/
theorem bob_entered (hs : s.rState ≠ .rat) :
    s.nBobTailPtr i = s.rBobTailPtr + BitVec.ofNat 3 (s.branchEnters i).toList.length ∧
      s.nBob i = (s.branchEnters i).elim s.rBob
        fun p => Function.update s.rBob (idx s.rBobTailPtr) ⟨true, p⟩ := by
  have hc : (s.ctl i).tClrRob = false := by rw [ctl_tClrRob, decide_eq_false hs]
  unfold nBobTailPtr nBob
  simp only [hc, Bool.false_eq_true, if_false]
  rcases s.branchEnters_cases i with ⟨h2, h1, hb, he⟩ | ⟨h2, h1, he⟩ | ⟨h2, h1, he⟩
  · rw [h2, h1, hb, he]
    cases s.tUop2.isBr <;> simp
  · rw [h2, h1, he]
    cases s.tUop.isBr <;> simp
  · rw [h2, h1, he]
    simp

theorem bobView_step (hs : s.rState ≠ .rat)
    (hl : (if s.branchLeaves i then 1 else 0) ≤ occ s.rBobHeadPtr s.rBobTailPtr)
    (hroom : occ s.rBobHeadPtr s.rBobTailPtr + (s.branchEnters i).toList.length ≤
      4 + (if s.branchLeaves i then 1 else 0)) :
    (s.step i).bobView = s.bobView.drop (if s.branchLeaves i then 1 else 0) ++
      (s.branchEnters i).toList.map fun p => ⟨true, p⟩ := by
  have ho : occ (s.rBobHeadPtr + BitVec.ofNat 3 (if s.branchLeaves i then 1 else 0))
      s.rBobTailPtr = occ s.rBobHeadPtr s.rBobTailPtr - (if s.branchLeaves i then 1 else 0) :=
    occ_head_add _ _ hl
  change contents (s.nBob i) (s.nBobHeadPtr i) (s.nBobTailPtr i) = _
  unfold bobView
  rw [nBobHeadPtr_eq hs, (bob_entered hs).1, (bob_entered hs).2, ← contents_drop _ hl]
  cases he : s.branchEnters i with
  | none => simp
  | some p =>
      rw [he, Option.toList_some, List.length_singleton] at hroom
      exact contents_push (k := 2) _ _ (by omega)

/-! ### The invariant -/

/-- What runs without an architectural fault maintain in which pairs find room. -/
structure BobInv (s : Core) : Prop extends RobInv s where
  ok : s.BobOk

theorem branchLeaves_le (hp : s.Ptrs) (hr : s.RetiresEntry i) :
    (if s.branchLeaves i then 1 else 0) ≤ s.branchSlots.length := by
  split_ifs with h
  · have hmem : ∃ p, p ∈ s.branchSlots := by
      unfold branchSlots
      simp only [List.reduceOption_mem_iff, slotView, mem_contents]
      rcases Bool.or_eq_true _ _ |>.mp h with h | h
      · obtain ⟨hl, hb⟩ := Bool.and_eq_true _ _ |>.mp h
        have he := hr hl
        rw [tRobEmpty, beq_eq_false_iff_ne] at he
        refine ⟨idx s.rRobHeadPtr, 0, occ_pos_iff.mpr he, ?_⟩
        rw [slot_zero]
        exact if_pos hb
      · obtain ⟨hl, hb⟩ := Bool.and_eq_true _ _ |>.mp h
        have hocc := hr.nLeaving_le hp
        unfold nLeaving at hocc
        rw [(tRetireTwo_tRetire hl).1, Bool.true_or, if_pos rfl, if_pos hl] at hocc
        refine ⟨idx s.rRobNextHeadPtr, 1, hocc, ?_⟩
        have hslot : slot s.rRobHeadPtr 1 = idx s.rRobNextHeadPtr := by
          rw [hp.robNextHead]
          rfl
        rw [hslot]
        exact if_pos hb
    obtain ⟨p, hp⟩ := hmem
    exact List.length_pos_of_mem hp
  · exact Nat.zero_le _

theorem branchSlots_of_empty (h : s.tRobEmpty = true) : s.branchSlots = [] := by
  rw [tRobEmpty, beq_iff_eq] at h
  rw [branchSlots, slotView, h, contents_self]
  rfl

theorem BobOk.occ_eq (h : s.BobOk) : s.branchSlots.length = occ s.rBobHeadPtr s.rBobTailPtr :=
  h.count

theorem BobInv.room (h : s.BobInv) (hpair : s.PairRoom i) :
    occ s.rBobHeadPtr s.rBobTailPtr + (s.branchEnters i).toList.length ≤
      4 + (if s.branchLeaves i then 1 else 0) := by
  have h4 := h.ok.capacity
  rw [h.ok.occ_eq] at h4
  have hfull : s.tBobFull = false → occ s.rBobHeadPtr s.rBobTailPtr < 4 := fun hf =>
    (isFull_eq_false_iff (k := 2) h4).mp hf
  rcases s.branchEnters_cases i with ⟨h2, h1, -, he⟩ | ⟨-, h1, he⟩ | ⟨-, -, he⟩
  · rw [he]
    cases hb : s.tUop2.isBr
    · simp
      omega
    · rw [if_pos rfl, Option.toList_some, List.length_singleton]
      rcases hpair h2 hb with hf | hl
      · have := hfull hf
        omega
      · rw [if_pos hl]
        omega
  · rw [he]
    cases hb : s.tUop.isBr
    · simp
      omega
    · rw [if_pos rfl, Option.toList_some, List.length_singleton]
      have hlt : occ s.rBobHeadPtr s.rBobTailPtr < 4 := by
        by_cases hs : s.rState = .active
        · have hbob := (tAlloc_active hs h1).2.1
          rw [tEnoughBob, if_pos hb, Bool.not_eq_true'] at hbob
          exact hfull hbob
        · have hser : Serial s.rState := by
            rw [ctl_tAlloc] at h1
            cases hst : s.rState <;> simp only [hst] at h1 <;>
              first | exact absurd h1 Bool.false_ne_true | exact absurd hst hs | simp [Serial]
          rw [← h.ok.occ_eq, branchSlots_of_empty (h.serial hser)]
          decide
      omega
  · rw [he]
    simp
    omega

theorem BobInv.ok_step (h : s.BobInv) (hm : s.MonitorEntry i) (hpair : s.PairRoom i) :
    (s.step i).BobOk := by
  by_cases hs : s.rState = .rat
  · have hc : (s.ctl i).tClrRob = true := by rw [ctl_tClrRob, decide_eq_true hs]
    have hhead : (s.step i).rBobHeadPtr = 0 := if_pos hc
    have htail : (s.step i).rBobTailPtr = 0 := if_pos hc
    have hrob : (s.step i).tRobEmpty = true := by
      have h1 : (s.step i).rRobHeadPtr = 0 := if_pos hc
      have h2 : (s.step i).rRobTailPtr = 0 := if_pos hc
      rw [tRobEmpty, h1, h2]
      rfl
    have hb := branchSlots_of_empty hrob
    refine ⟨?_, ?_, ?_⟩
    · rw [hb, hhead, htail]
      rfl
    · rw [hb]
      exact Nat.zero_le _
    · rw [hb, bobView, hhead, htail, contents_self]
      rfl
  · have hr := h.retires hm
    have hl := branchLeaves_le h.ptrs hr
    have hslots := branchSlots_step h.ptrs hs hr
    have hroom := h.room hpair
    have hlen := h.ok.occ_eq
    rw [hlen] at hl
    have hview := bobView_step hs hl hroom
    have horder : (s.step i).bobView = (s.step i).branchSlots.map fun p => ⟨true, p⟩ := by
      rw [hview, hslots, h.ok.order, List.map_append, List.map_drop]
    refine ⟨?_, ?_, horder⟩
    · have := congrArg List.length horder
      rw [bobView, contents_length, List.length_map] at this
      exact this.symm
    · rw [hslots, List.length_append, List.length_drop, hlen]
      omega

theorem BobInv.step (h : s.BobInv) (hf : s.rState ≠ .archFault) (hm : s.MonitorEntry i)
    (hpair : s.PairRoom i) : (s.step i).BobInv :=
  ⟨h.toRobInv.step hf hm, h.ok_step hm hpair⟩

theorem init_bobInv (rob : RobPtr → RobEntry) (bob : BitVec 2 → BobEntry) (dq : BitVec 2 → Uop) :
    (init rob bob dq).BobInv := by
  have hb : (init rob bob dq).branchSlots = [] := branchSlots_of_empty rfl
  have hv : (init rob bob dq).bobView = [] := contents_self _ _
  refine ⟨init_robInv rob bob dq, ⟨?_, ?_, ?_⟩⟩
  · rw [hb]
    change 0 = ((0 : BitVec 3) - 0).toNat
    decide
  · rw [hb]
    exact Nat.zero_le _
  · rw [hb, hv]
    rfl

/-- A slot that still holds a branch in flight is not written. -/
theorem BobInv.keeps (h : s.BobInv) (hpair : s.PairRoom i) : s.KeepsBob i := by
  intro hs n hl hn
  have hroom := h.room hpair
  rw [(bob_entered hs).2]
  cases he : s.branchEnters i with
  | none => rfl
  | some p =>
      rw [he, Option.toList_some, List.length_singleton] at hroom
      refine Function.update_of_ne (fun heq => ?_) _ _
      -- both slots lie within four of the head after the cycle
      rw [← slot_occ s.rBobHeadPtr s.rBobTailPtr] at heq
      obtain ⟨m, rfl⟩ := Nat.exists_eq_add_of_le hl
      obtain ⟨k, hk⟩ := Nat.exists_eq_add_of_le (hl.trans hn.le)
      rw [hk, ← slot_head_add, ← slot_head_add] at heq
      have := slot_inj (k := 2) (by omega) (by omega) heq
      omega

/-- Two branches share a slot once a pair is let in without room. -/
theorem BobInv.pairRoom_of_ok (h : s.BobInv) (hm : s.MonitorEntry i) (hok : (s.step i).BobOk) :
    s.PairRoom i := by
  intro h2 hb
  by_contra hn
  rw [not_or, Bool.not_eq_false, Bool.not_eq_true] at hn
  obtain ⟨hfull, hl⟩ := hn
  have hs : s.rState ≠ .rat := by
    rw [(tAllocTwo_tAlloc h2).2.1]
    decide
  have hr := h.retires hm
  have henter : s.branchEnters i = some (idx s.rRobNextTailPtr) := by
    unfold branchEnters
    rw [if_pos h2]
    exact if_pos hb
  have hlen := congrArg List.length (branchSlots_step h.ptrs hs hr)
  have hocc := (isFull_iff (k := 2)).mp hfull
  have hcap := hok.capacity
  rw [hl, henter, List.length_append, if_neg Bool.false_ne_true, List.drop_zero, h.ok.occ_eq, hocc,
    Option.toList_some, List.length_singleton] at hlen
  omega

/-! ### Runs -/

/-- The cycles of a run without an architectural fault in which pairs find room. -/
def OrderedRun (s : Core) (i : CoreIn) : Prop :=
  s.rState ≠ .archFault ∧ s.MonitorEntry i ∧ s.PairRoom i

theorem reach_bobInv (h : coreMachine.Reach OrderedRun s) : s.BobInv :=
  h.invariant (fun _ ⟨_, _, _, he⟩ => he ▸ init_bobInv _ _ _)
    fun _ _ h hi => h.step hi.1 hi.2.1 hi.2.2

/-- **The branch order buffer lists the branches in flight** in every run without an architectural
fault in which the second uop of a pair is a branch only while the buffer has room or a branch
leaves: their number is the distance of the pointers and at most four, the entries from head to
tail are valid and hold their slots in order, and no entry of a branch that stays in flight is
overwritten.  The first cycle that breaks the condition breaks the buffer. -/
theorem bob_in_order (h : coreMachine.Reach OrderedRun s) :
    s.BobOk ∧ ∀ i, s.rState ≠ .archFault → s.MonitorEntry i →
      (s.PairRoom i → s.KeepsBob i) ∧ ((s.step i).BobOk ↔ s.PairRoom i) := by
  have hi := reach_bobInv h
  refine ⟨hi.ok, fun i _ hm => ⟨hi.keeps, hi.pairRoom_of_ok hm, hi.ok_step hm⟩⟩

/-- `addi x1, x0, 1` and `beq x1, x0, 8`, five times. -/
def branchInputs : List CoreIn :=
  bootInputs ++ ((List.range 5).map fun k =>
    CoreIn.fetchTwo (BitVec.ofNat 32 (8 * k)) 0x00100093 0x00008463)

instance : Decidable (s.PairRoom i) := by
  unfold PairRoom
  infer_instance

instance : Decidable (OrderedRun s i) := by
  unfold OrderedRun
  infer_instance

/-- The first four pairs are in order. -/
theorem bob_in_order_pairs :
    let s := coreMachine.run zeroed branchInputs
    s.BobOk ∧ s.branchSlots = [1, 3, 5, 7] ∧ ((s.step .idle).BobOk ↔ s.PairRoom .idle) := by
  have h := bob_in_order (s := coreMachine.run zeroed branchInputs)
    (.run reach_zeroed (by decide +kernel))
  exact ⟨h.1, by decide +kernel, (h.2 .idle (by decide +kernel) (by decide +kernel)).2⟩

/-- The fifth pair puts a fifth branch into the buffer, over the entry of the first. -/
theorem bob_overflows :
    ¬∀ s, coreMachine.Reach (fun s i => s.rState ≠ .archFault ∧ AnswersInflight s i) s →
      s.BobOk := fun h =>
  absurd (h (coreMachine.run zeroed (branchInputs ++ [.idle]))
    (.run reach_zeroed (by decide +kernel))).capacity (by decide +kernel)

end Core
end Rv32Core
