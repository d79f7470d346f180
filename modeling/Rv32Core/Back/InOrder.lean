import Rv32Core.Back.Serial

/-! # The reorder buffer is a queue

What is allocated leaves the ROB in the order of allocation: it retires, a drain flushes it, or it
is the faulting instruction that WRITE_CAUSE drops.  A log takes down what is allocated and what
leaves, with the way it left; the entries between head and tail are those in between.

The run may end in an architectural fault.  From ARCH_FAULT on nothing is allocated or retired until
the host resumes the core. -/

namespace Rv32Core

open Clocked RingBuffer

/-- What the checks of the ROB follow of an entry: `pc`, `ldst` and `pdst`. -/
abbrev EntryView := Word × ArchReg × PrfPtr

def RobEntry.view (e : RobEntry) : EntryView := (e.pc, e.ldst, e.pdst)

/-- How an entry leaves the ROB. -/
inductive Fate where
  | retired | flushed | faulted
deriving DecidableEq, Repr

/-- What was allocated, what retired, and what left the ROB in which way, each in its order, and
whether an architectural fault was taken. -/
structure RobLog where
  allocated : List EntryView
  retired : List EntryView
  gone : List (Fate × EntryView)
  fault : Bool

/-- The entries logged as dropped by WRITE_CAUSE. -/
def RobLog.dropped (l : RobLog) : ℕ := (l.gone.filter fun x => x.1 = .faulted).length

namespace Core

variable {s : Core} {i : CoreIn}

theorem view_stable : Stable RobEntry.view := ⟨fun _ _ => rfl, fun _ _ => rfl⟩

/-- The entries that leave the ROB in a cycle, oldest first. -/
def leaving (s : Core) (i : CoreIn) : List (Fate × EntryView) :=
  ((s.retired i).map RobEntry.view).map (Prod.mk .retired) ++
    (if (s.ctl i).tBumpRobHead && !(s.ctl i).tRetire then [(.faulted, s.tRobHead.view)] else []) ++
    if (s.ctl i).tClrRob then (robView RobEntry.view s).map (Prod.mk .flushed) else []

/-- The log after a cycle. -/
def watchRob (l : RobLog) (s : Core) (i : CoreIn) : RobLog where
  allocated := l.allocated ++ (s.allocated i).map RobEntry.view
  retired := l.retired ++ (s.retired i).map RobEntry.view
  gone := l.gone ++ s.leaving i
  fault := l.fault || decide (s.rState = .archFault)

theorem leaving_eq (hp : s.Ptrs) (hs : s.rState ≠ .rat) (hr : s.RetiresEntry i) :
    (s.leaving i).map Prod.snd = (robView RobEntry.view s).take (s.nLeaving i) := by
  have hc : (s.ctl i).tClrRob = false := by rw [ctl_tClrRob, decide_eq_false hs]
  unfold RetiresEntry at hr
  unfold leaving retired nLeaving
  rw [hc]
  cases h1 : (s.ctl i).tRetire
  · have h2 : (s.ctl i).tRetireTwo = false := Bool.eq_false_iff.mpr fun h2 => by
      rw [(tRetireTwo_tRetire h2).1] at h1
      cases h1
    cases hb : (s.ctl i).tBumpRobHead
    · simp [h2]
    · rw [tRobHead_view _ (hr (by rw [hb, Bool.or_true]))]
      simp [h2]
  · have he : s.tRobEmpty = false := hr (by rw [h1, Bool.true_or])
    rw [tRobHead_view _ he]
    cases h2 : (s.ctl i).tRetireTwo
    · simp
    · rw [tRobNextHead_view _ hp (tRetireTwo_tRetire h2).2]
      simp

theorem watchRob_step {l : RobLog} (hp : s.Ptrs) (hr : s.RetiresEntry i)
    (h : l.allocated = l.gone.map Prod.snd ++ robView RobEntry.view s) :
    (watchRob l s i).allocated =
      (watchRob l s i).gone.map Prod.snd ++ robView RobEntry.view (s.step i) := by
  show l.allocated ++ _ = (l.gone ++ s.leaving i).map Prod.snd ++ _
  rw [h, List.map_append]
  by_cases hs : s.rState = .rat
  · have hc : (s.ctl i).tClrRob = true := by rw [ctl_tClrRob, decide_eq_true hs]
    have ha : (s.ctl i).tAlloc = false := by rw [ctl_tAlloc, hs]
    have ht : (s.ctl i).tRetire = false := by rw [ctl_tRetire, hs]
    have h2 : (s.ctl i).tRetireTwo = false := by rw [ctl_tRetireTwo, hs]
    have hb : (s.ctl i).tBumpRobHead = false := by rw [ctl_tBumpRobHead, hs]
    rw [robView_rat _ hs, leaving, retired, allocated, hc, ha, ht, h2, hb]
    simp [Function.comp_def]
  · rw [leaving_eq hp hs hr, robView_step view_stable hp hs (hr.nLeaving_le hp),
      List.append_assoc, List.append_assoc, ← List.append_assoc (List.take _ _),
      List.take_append_drop]

theorem filter_fate (f g : Fate) (l : List EntryView) :
    ((l.map (Prod.mk f)).filter fun x => x.1 = g) = if f = g then l.map (Prod.mk f) else [] := by
  induction l with
  | nil => cases f <;> cases g <;> rfl
  | cons e l ih =>
      rw [List.map_cons, List.filter_cons, ih]
      by_cases h : f = g <;> simp [h]

theorem leaving_retired : ((s.leaving i).filter fun x => x.1 = .retired).map Prod.snd =
    (s.retired i).map RobEntry.view := by
  unfold leaving
  rw [List.filter_append, List.filter_append, filter_fate]
  cases (s.ctl i).tBumpRobHead && !(s.ctl i).tRetire <;> cases (s.ctl i).tClrRob <;>
    simp [filter_fate, Function.comp_def]

theorem leaving_dropped : ((s.leaving i).filter fun x => x.1 = .faulted).length =
    if (s.ctl i).tBumpRobHead && !(s.ctl i).tRetire then 1 else 0 := by
  unfold leaving
  rw [List.filter_append, List.filter_append, filter_fate]
  cases (s.ctl i).tBumpRobHead && !(s.ctl i).tRetire <;> cases (s.ctl i).tClrRob <;>
    simp [filter_fate]

/-- Only WRITE_CAUSE drops an entry. -/
theorem dropped_step {l : RobLog} (hs : s.rState ≠ .writeCause) :
    (watchRob l s i).dropped = l.dropped := by
  have h0 : ((s.ctl i).tBumpRobHead && !(s.ctl i).tRetire) = false := by
    cases hb : (s.ctl i).tBumpRobHead
    · rfl
    · rw [tBumpRobHead_tRetire hs hb]
      rfl
  show ((l.gone ++ s.leaving i).filter _).length = _
  rw [List.filter_append, List.length_append, leaving_dropped, h0]
  rfl

theorem dropped_step_le (l : RobLog) (s : Core) (i : CoreIn) :
    (watchRob l s i).dropped ≤ l.dropped + 1 := by
  show ((l.gone ++ s.leaving i).filter _).length ≤ _
  rw [List.filter_append, List.length_append, leaving_dropped]
  unfold RobLog.dropped
  split_ifs <;> omega

/-! ### After an architectural fault -/

/-- The core has taken an architectural fault and is not resumed. -/
def Fallen (c : CoreState) : Prop := Records c ∨ c = .flushForHalt ∨ c = .halt

/-- What is left of the invariant of the ROB there. -/
structure FallenInv (s : Core) : Prop where
  ptrs : s.Ptrs
  state : Fallen s.rState
  some : Records s.rState → 0 < s.robCount

theorem Fallen.moves (h : Fallen s.rState) :
    s.nAllocated i = 0 ∧ s.nLeaving i = if s.rState = .writeCause then 1 else 0 :=
  halted_moves (h.elim (fun h => .inr (.inl h)) fun h => .inl (h.elim .inl fun h => .inr (.inl h)))

theorem FallenInv.tRetire (h : s.FallenInv) : (s.ctl i).tRetire = false := by
  rw [ctl_tRetire]
  rcases h.state with (hs | hs) | hs | hs <;> rw [hs]

theorem FallenInv.retires (h : s.FallenInv) : s.RetiresEntry i := by
  intro hl
  rw [h.tRetire, Bool.false_or, ctl_tBumpRobHead] at hl
  have hw : s.rState = .writeCause := by
    rcases h.state with (hs | hs) | hs | hs <;> rw [hs] at hl <;> first | exact hs | cases hl
  have h1 := h.some (.inr hw)
  by_contra he
  rw [Bool.not_eq_false] at he
  rw [robCount_eq_zero.mpr he] at h1
  cases h1

theorem fallen_next (h : Fallen s.rState) (hi : i.resume = false) : Fallen (s.ctl i).nState := by
  unfold ctl
  rcases h with (hs | hs) | hs | hs <;> rw [hs]
  · exact .inl (.inr rfl)
  · exact .inr (.inl rfl)
  · simp only [flushForHaltCtl]
    split_ifs
    · exact .inr (.inr rfl)
    · exact .inr (.inl hs)
  · simp only [haltCtl, hi, Bool.false_eq_true, if_false]
    exact .inr (.inr hs)

/-- The fault is recorded once. -/
theorem fallen_records (h : Fallen s.rState) (hr : Records (s.ctl i).nState) :
    s.rState = .writeEpc := by
  refine (ctl_records hr).resolve_left fun hs => ?_
  rw [hs] at h
  rcases h with (h | h) | h | h <;> cases h

theorem FallenInv.step (h : s.FallenInv) (hi : i.resume = false) : (s.step i).FallenInv := by
  have hl := h.retires.nLeaving_le (i := i) h.ptrs
  refine ⟨h.ptrs.step hl, fallen_next h.state hi, fun hr => ?_⟩
  have hs := fallen_records (i := i) h.state hr
  have hcount := robCount_step (i := i) h.ptrs (by rw [hs]; decide) hl
  have hmove := h.state.moves (i := i)
  rw [hs, if_neg (by decide)] at hmove
  have := h.some (.inl hs)
  omega

theorem Occupied.fallen (h : s.Occupied) (hs : s.rState = .archFault) : (s.step i).FallenInv := by
  have hl := h.nLeaving_le (i := i)
  have hn : (s.step i).rState = .writeEpc := (archFaultMove hs).1
  refine ⟨h.ptrs.step hl, .inl (.inl hn), fun _ => ?_⟩
  have hcount := robCount_step (i := i) h.ptrs (by rw [hs]; decide) hl
  have hmove := halted_moves (i := i) (.inr (.inr hs))
  rw [hs, if_neg (by decide)] at hmove
  have := h.fault (.inl hs)
  omega

end Core

namespace Back

variable {s : Back} {i : BackIn} {l : RobLog}

/-- The composed machine with the log of the ROB. -/
def robMachine : Machine (Back × RobLog) BackIn :=
  backMachine.observed ⟨[], [], [], false⟩ fun l s i => Core.watchRob l s.core (s.coreIn i)

/-- The machine is not resumed after an architectural fault. -/
def NoResume (x : Back × RobLog) (i : BackIn) : Prop := x.2.fault = true → i.resume = false

instance (x : Back × RobLog) (i : BackIn) : Decidable (NoResume x i) :=
  inferInstanceAs (Decidable (_ → _))

/-- What such a run maintains. -/
structure RobInv (s : Back) (l : RobLog) : Prop where
  running : l.fault = false → ∃ sl, s.FaultFree sl
  fallen : l.fault = true → s.core.FallenInv
  queue : l.allocated = l.gone.map Prod.snd ++ Core.robView RobEntry.view s.core
  retired : l.retired = (l.gone.filter fun x => x.1 = .retired).map Prod.snd
  dropped : l.dropped ≤ 1
  undropped : l.fault = false ∨ Core.Records s.core.rState → l.dropped = 0

theorem RobInv.ptrs (h : s.RobInv l) : s.core.Ptrs := by
  cases hf : l.fault
  · obtain ⟨sl, hr⟩ := h.running hf
    exact hr.inv.occ.ptrs
  · exact (h.fallen hf).ptrs

theorem RobInv.retires (h : s.RobInv l) (j : CoreIn) : s.core.RetiresEntry j := by
  cases hf : l.fault
  · obtain ⟨sl, hr⟩ := h.running hf
    exact hr.inv.occ.retires
  · exact (h.fallen hf).retires

theorem RobInv.step (h : s.RobInv l) (hre : robMachine.Reach NoResume (s, l))
    (hn : NoResume (s, l) i) : (s.step i).RobInv (Core.watchRob l s.core (s.coreIn i)) := by
  have hback : backMachine.Reach (fun _ _ => True) s :=
    hre.map (N := backMachine) Prod.fst (fun _ i => i) (fun _ (h0 : robMachine.reset _) => h0.1)
      (fun _ _ _ => rfl) fun _ _ _ _ => trivial
  have hwc : l.fault = false → s.core.rState ≠ .writeCause := fun hf => by
    obtain ⟨sl, hr⟩ := h.running hf
    exact hr.noWrite.2
  have hflag : (Core.watchRob l s.core (s.coreIn i)).fault =
      (l.fault || decide (s.core.rState = .archFault)) := rfl
  refine ⟨fun hf => ?_, fun hf => ?_, Core.watchRob_step h.ptrs (h.retires _) h.queue, ?_, ?_,
    fun hc => ?_⟩
  · rw [hflag, Bool.or_eq_false_iff, decide_eq_false_iff_not] at hf
    obtain ⟨sl, hr⟩ := h.running hf.1
    exact ⟨_, hr.step hback hf.2⟩
  · cases hl : l.fault
    · obtain ⟨sl, hr⟩ := h.running hl
      rw [hflag, hl, Bool.false_or, decide_eq_true_eq] at hf
      exact hr.inv.occ.fallen hf
    · exact (h.fallen hl).step (hn hl)
  · show l.retired ++ _ = ((l.gone ++ s.core.leaving (s.coreIn i)).filter _).map Prod.snd
    rw [List.filter_append, List.map_append, Core.leaving_retired, h.retired]
  · by_cases hs : s.core.rState = .writeCause
    · have hle := Core.dropped_step_le l s.core (s.coreIn i)
      have h0 := h.undropped (.inr (.inr hs))
      omega
    · rw [Core.dropped_step hs]
      exact h.dropped
  · have hs : s.core.rState ≠ .writeCause ∧ (l.fault = false ∨ Core.Records s.core.rState) := by
      rcases hc with hc | hc
      · rw [hflag, Bool.or_eq_false_iff] at hc
        exact ⟨hwc hc.1, .inl hc.1⟩
      · rcases Core.ctl_records (s := s.core) (i := s.coreIn i) hc with hs | hs
        · refine ⟨by rw [hs]; decide, .inl ?_⟩
          by_contra hl
          rw [Bool.not_eq_false] at hl
          rcases (h.fallen hl).state with (hx | hx) | hx | hx <;> rw [hs] at hx <;> cases hx
        · exact ⟨by rw [hs]; decide, .inr (.inl hs)⟩
    rw [Core.dropped_step hs.1]
    exact h.undropped hs.2

theorem robInv_reset (h : backMachine.reset s) : s.RobInv ⟨[], [], [], false⟩ where
  running _ := ⟨⟨Uop.zero, false⟩, faultFree_reset h⟩
  fallen hf := by cases hf
  queue := by
    obtain ⟨⟨rob, bob, dq, hc⟩, -⟩ := h
    have hnil : Core.robView RobEntry.view (Core.init rob bob dq) = [] := contents_self _ _
    rw [hc, hnil]
    rfl
  retired := rfl
  dropped := Nat.zero_le _
  undropped _ := rfl

theorem reach_robInv (h : robMachine.Reach NoResume (s, l)) : s.RobInv l := by
  have hall : ∀ {x : Back × RobLog}, robMachine.Reach NoResume x →
      robMachine.Reach NoResume x ∧ x.1.RobInv x.2 := by
    intro x hx
    induction hx with
    | reset h0 => exact ⟨.reset h0, h0.2 ▸ robInv_reset h0.1⟩
    | step hx he ih => exact ⟨hx.step he, ih.2.step hx he⟩
  exact (hall h).2

/-- **The reorder buffer is an in-order queue.**  In every run from reset that does not resume after
an architectural fault: each second pointer is one ahead of the first and the ROB holds at most 32
entries; whatever the inputs, what is allocated goes to slots that no entry of the ROB occupies, and
what retires is in the ROB; and what was allocated is, in order, what has left, followed by what the
ROB holds, where what retired is what has left without the entries a drain flushed and the one
faulting entry WRITE_CAUSE dropped. -/
theorem rob_in_order (h : robMachine.Reach NoResume (s, l)) :
    (s.core.rRobNextHeadPtr = s.core.rRobHeadPtr + 1 ∧
      s.core.rRobNextTailPtr = s.core.rRobTailPtr + 1 ∧
      (s.core.rRobTailPtr - s.core.rRobHeadPtr).toNat ≤ 32) ∧
    (∀ i, ((s.coreCtl i).tAlloc = true → ¬s.core.InRob (idx s.core.rRobTailPtr)) ∧
      ((s.coreCtl i).tAllocTwo = true → ¬s.core.InRob (idx s.core.rRobNextTailPtr) ∧
        (idx s.core.rRobNextTailPtr : RobPtr) ≠ idx s.core.rRobTailPtr)) ∧
    (∀ i, (s.core.retired (s.coreIn i)).length ≤
      (s.core.rRobTailPtr - s.core.rRobHeadPtr).toNat) ∧
    l.allocated = l.gone.map Prod.snd ++ Core.robView RobEntry.view s.core ∧
    l.retired = (l.gone.filter fun x => x.1 = .retired).map Prod.snd ∧ l.dropped ≤ 1 := by
  have hi := reach_robInv h
  have hp := hi.ptrs
  refine ⟨⟨hp.robNextHead, hp.robNextTail, hp.robOcc⟩, fun i => ⟨fun ha => hp.tail_fresh ha,
    fun ha => ⟨hp.nextTail_fresh ha, hp.nextTail_ne⟩⟩, fun i => ?_, hi.queue, hi.retired,
    hi.dropped⟩
  refine le_trans ?_ ((hi.retires (s.coreIn i)).nLeaving_le hp)
  unfold Core.retired Core.nLeaving
  cases h1 : (s.core.ctl (s.coreIn i)).tRetire
  · have h2 : (s.core.ctl (s.coreIn i)).tRetireTwo = false := Bool.eq_false_iff.mpr fun h2 => by
      rw [(Core.tRetireTwo_tRetire h2).1] at h1
      cases h1
    rw [h2]
    exact Nat.zero_le _
  · cases (s.core.ctl (s.coreIn i)).tRetireTwo <;> simp

theorem reach_boot_rob : robMachine.Reach NoResume (boot, ⟨[], [], [], false⟩) := by
  refine reach_boot (M := robMachine) (fun s => (s, ⟨[], [], [], false⟩)) BackIn.idle
    (.reset ⟨reset_start, rfl⟩) ?_
  rintro s (rfl | ⟨n, a, b, rfl⟩)
  · exact ⟨nofun, rfl⟩
  · have hr : (asleep n a b).core.rState = .flushForHalt := by cases n <;> rfl
    have hw : Core.watchRob ⟨[], [], [], false⟩ (asleep n a b).core
        ((asleep n a b).coreIn BackIn.idle) = ⟨[], [], [], false⟩ := by
      unfold Core.watchRob Core.leaving Core.allocated Core.retired
      rw [Core.ctl_tAlloc, Core.ctl_tRetire, Core.ctl_tRetireTwo, Core.ctl_tBumpRobHead,
        Core.ctl_tClrRob, hr]
      rfl
    exact ⟨nofun, congrArg (Prod.mk _) hw⟩

/-- `addi x1, x0, 5`, a taken branch that is not predicted, and two instructions behind it. -/
def wrongPathInputs : List BackIn :=
  BackIn.bootInputs ++
    [BackIn.fetch 0 0x00500093, BackIn.fetch 4 0x00108463, BackIn.fetch 8 0x06300113,
      BackIn.fetch 12 0x00700193] ++ List.replicate 8 BackIn.idle

/-- The first two retire; the drain of the branch flushes the others. -/
theorem rob_in_order_drain :
    let x := robMachine.run (boot, ⟨[], [], [], false⟩) wrongPathInputs
    x.2.allocated = [(0, 1, 62), (4, 0, 0), (8, 2, 60), (12, 3, 63)] ∧
      x.2.retired = [(0, 1, 62), (4, 0, 0)] ∧
      x.2.gone.map Prod.fst = [.retired, .retired, .flushed, .flushed] ∧
      x.2.allocated = x.2.gone.map Prod.snd ++ Core.robView RobEntry.view x.1.core :=
  ⟨by decide +kernel, by decide +kernel, by decide +kernel,
    (rob_in_order (.run reach_boot_rob (by decide +kernel))).2.2.2.1⟩

end Back
end Rv32Core
