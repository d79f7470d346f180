import Rv32Core.Back.Results
import Rv32Core.Checker.Lockstep

/-! # Retirement is sequential execution

The architectural registers of the machine are the values of the registers that the retired table
maps.  A cycle retires at most two instructions; executed one after the other on the architectural
registers, with the values their predecessors leave, they have the effects that their ROB entries
say and leave the architectural registers of the next cycle.  A cycle that retires nothing leaves
the architectural registers as they are, a drain included. -/

namespace Rv32Core

open Clocked RingBuffer Rename

/-- A retired instruction: its uop, the answer of the data cache to it, and its effect. -/
structure RetiredUop where
  uop : Uop
  answer : MemRsp
  effect : Effect

namespace RetiredUop

/-- The architectural register an instruction writes. -/
def dst (x : RetiredUop) : Option ArchReg :=
  if x.uop.dstValid then some (archReg x.uop.dst) else none

/-- What it writes there. -/
def result (x : RetiredUop) : Word := x.effect.data

/-- The instruction has its effect on the architectural registers `f`. -/
def RunsOn (x : RetiredUop) (f : ArchReg → Word) : Prop :=
  ∃ a b, (x.uop.srcAValid = true → f (archReg x.uop.srcA) = a) ∧
    (x.uop.isMem = false → x.uop.srcBValid = true → f (archReg x.uop.srcB) = b) ∧
    x.uop.Runs a b x.answer x.effect

end RetiredUop

/-! ### Folded uops -/

/-- A folded uop with a destination is illegal, and a serializing one is not folded. -/
def Uop.FoldedDst (u : Uop) : Prop := Core.folds u.op = true → u.dstValid = true →
  u.op = .ii ∧ u.serializingOp = false

theorem decodeRiscv_foldedDst (f : InsnFetch) : (decodeRiscv f).FoldedDst := by
  have h : ∀ k ∈ UopKind.decoded, Core.folds k.op = true → k.dstValid = true →
      k.op = .ii ∧ k.serializingOp = false := by decide
  exact h _ (decodeRiscv_kind f)

namespace Back

variable {s : Back} {i : BackIn} {l : FlowLog} {m : ResultLog} {p : RobPtr} {a : ArchReg}

/-! ### The architectural registers -/

/-- The architectural registers. -/
def arch (s : Back) (a : ArchReg) : Word := s.exec.value (s.core.rRetireRat a)

/-- What is in a slot of the ROB. -/
def retiredAt (m : ResultLog) (s : Back) (p : RobPtr) : RetiredUop :=
  ⟨(m.flow.slots p).decoded, m.answers p, (s.core.rRob p).effect⟩

/-- The instructions retired in a cycle, oldest first. -/
def retiredIn (m : ResultLog) (s : Back) (i : BackIn) : List RetiredUop :=
  (if (s.coreCtl i).tRetire then [retiredAt m s (idx s.core.rRobHeadPtr)] else []) ++
    if (s.coreCtl i).tRetireTwo then [retiredAt m s (idx s.core.rRobNextHeadPtr)] else []

theorem Flowing.retireRat_kept (h : s.Flowing l) (hc : s.Regular i) (a : ArchReg) :
    (s.step i).exec.value (s.core.rRetireRat a) = s.arch a := by
  refine Exec.value_kept (Bool.eq_false_iff.mpr fun hw => ?_)
  obtain ⟨p, hp, hd, he⟩ := h.flow.writer ((h.execMoves hc).was _ (Exec.mem_written.mpr hw))
  exact (h.flow.slotsInv.window.dst (h.flow.slotsInv.inRob p hp) hd).2.1 a he.symm

theorem retireRat_step : (s.step i).core.rRetireRat =
    mapped (if (s.coreCtl i).tRetireTwo then Core.writerOf s.core.tRobNextHead else none)
      (mapped (if (s.coreCtl i).tRetire then Core.writerOf s.core.tRobHead else none)
        s.core.rRetireRat) := by
  have hw : ∀ (b : Bool) (e : RobEntry) (r : ArchReg → PrfPtr),
      mapped (if b then Core.writerOf e else none) r =
        writeIf (b && e.validDst) e.ldst e.pdst r := by
    intro b e r
    cases b <;> cases hv : e.validDst <;> simp [Core.writerOf, hv, mapped]
  have h2 : s.core.tFreeRegTwo (s.coreIn i) =
      ((s.coreCtl i).tRetireTwo && s.core.tRobNextHead.validDst) := by
    rw [Core.tFreeRegTwo, coreCtl]
    cases h2 : (s.core.ctl (s.coreIn i)).tRetireTwo
    · simp
    · rw [(Core.tRetireTwo_tRetire h2).1, Bool.true_and]
  rw [hw, hw, ← h2]
  rfl

theorem retired_dst {x : Slot} {e : RobEntry} (hx : Core.SlotOk p x e) (c : MemRsp) (o : Effect) :
    (RetiredUop.mk x.decoded c o).dst = (Core.writerOf e).map Entry.ldst := by
  cases hv : x.decoded.dstValid
  · simp [RetiredUop.dst, hv, Core.writerOf, hx.entry_dst.1]
  · simp [RetiredUop.dst, hv, hx.writer hv]

/-- **One instruction.**  A finished slot whose sources are mapped by `r` executes on the values
that `r` maps, and they change as its entry changes `r`. -/
theorem Finished.executes {x : Slot} {c : MemRsp} {e : RobEntry} {r : ArchReg → PrfPtr}
    (hf : s.Finished l x c e.effect) (hx : Core.SlotOk p x e) (hr : ∀ y ∈ x.reads, y.2 = r y.1)
    (hd : Core.folds x.decoded.op = true → x.decoded.dstValid = false) :
    (RetiredUop.mk x.decoded c e.effect).RunsOn (fun a => s.exec.value (r a)) ∧
      wrote (RetiredUop.mk x.decoded c e.effect).dst e.effect.data (fun a => s.exec.value (r a)) =
        fun a => s.exec.value (mapped (Core.writerOf e) r a) := by
  rw [retired_dst hx]
  refine ⟨?_, wrote_comp fun w hw => ?_⟩
  · generalize e.effect = o at hf
    cases hf with
    | folded hf => exact ⟨_, _, fun _ => rfl, fun _ _ => rfl, .folded hf⟩
    | executed a b _ hrun hs _ =>
        refine ⟨a, b, fun hv => ?_, fun hm hv => ?_, hrun⟩
        · have hmap := hr _ (Slot.mem_reads.mpr (.inl ⟨hv, rfl⟩))
          exact (congrArg s.exec.value hmap.symm).trans (hs.srcA hv).value
        · have hmap := hr _ (Slot.mem_reads.mpr (.inr ⟨hv, rfl⟩))
          exact (congrArg s.exec.value hmap.symm).trans (hs.srcB hm hv).value
  · have hv : x.decoded.dstValid = true := by
      rw [← hx.entry_dst.1]
      by_contra hv
      rw [Core.writerOf, if_neg hv] at hw
      cases hw
    rw [hx.writer hv, Option.some.injEq] at hw
    subst hw
    generalize e.effect = o at hf
    cases hf with
    | folded hf =>
        rw [hd hf] at hv
        cases hv
    | executed _ _ _ _ _ hval => exact (hval hv).value

/-! ### One cycle -/

/-- What leaves the ROB is retired or replayed while the core does not drain. -/
theorem Working.leaving (h : s.Working m) (hr : (s.coreCtl i).tRetire = true) :
    s.core.rDsDone = false ∧ s.core.tRobEmpty = false ∧
      s.core.rRobComplete (idx s.core.rRobHeadPtr) = true := by
  have hds := h.flowing.inv.occ.ds
  have hw := h.flowing.faultFree.choose_spec.noWrite.2
  have hr' : (s.core.ctl (s.coreIn i)).tRetire = true := hr
  refine ⟨Bool.eq_false_iff.mpr fun hd => ?_, h.flowing.inv.occ.retires (by rw [hr']; rfl), ?_⟩
  · rw [Core.ctl_tRetire] at hr'
    obtain (hs | hs) | hs := hds.up hd <;> rw [hs] at hr' <;> cases hr'
  · have hn : 0 < s.core.nLeaving (s.coreIn i) := by
      rw [Core.nLeaving, hr']
      split_ifs <;> simp_all
    rw [← slot_zero s.core.rRobHeadPtr]
    exact (Core.leaving_complete hw h.flowing.inv.occ.ptrs hn).2

theorem Finished.illegal {x : Slot} {c : MemRsp} {e : RobEntry} (hf : s.Finished l x c e.effect)
    (hop : x.decoded.op = .ii) : e.faulted = true ∧ e.isIi = true := by
  generalize ho : e.effect = o at hf
  cases hf with
  | folded _ =>
      have h1 : e.faulted = _ := congrArg Effect.faulted ho
      have h2 : e.isIi = _ := congrArg Effect.isIi ho
      rw [Effect.initial, hop] at h1 h2
      exact ⟨h1, h2⟩
  | executed _ _ hn _ _ _ =>
      rw [hop] at hn
      cases hn

/-- A folded uop that retires has no destination. -/
theorem Working.head_legal (h : s.Working m) (hr : (s.coreCtl i).tRetire = true)
    (hf : Core.folds (m.flow.slots (idx s.core.rRobHeadPtr)).decoded.op = true) :
    (m.flow.slots (idx s.core.rRobHeadPtr)).decoded.dstValid = false := by
  obtain ⟨hd, he, hc⟩ := h.leaving hr
  have hin : s.core.InRob (idx s.core.rRobHeadPtr) := by
    refine ⟨0, ?_, slot_zero _⟩
    rw [Nat.pos_iff_ne_zero]
    exact fun h0 => Bool.false_ne_true (he.symm.trans (Core.robCount_eq_zero.mp h0))
  obtain ⟨f, hdec⟩ := (h.flowing.flow.slotsInv.window.slots _ hin).decoded
  by_contra hv
  rw [Bool.not_eq_false] at hv
  obtain ⟨hop, hz⟩ := (hdec ▸ decodeRiscv_foldedDst f) hf hv
  obtain ⟨hfault, hii⟩ := ((h.results hd).done _ hin hc).illegal hop
  have hr' : (s.core.ctl (s.coreIn i)).tRetire = true := hr
  rw [Core.ctl_tRetire] at hr'
  cases hs : s.core.rState <;> rw [hs] at hr' <;>
    first | exact absurd hr' Bool.false_ne_true | skip
  · dsimp only at hr'
    rw [Core.activeCtl_tRetire, Bool.and_eq_true, Core.tArchFault] at hr'
    have hhead : s.core.tRobHead.faulted = true ∧ s.core.tRobHead.isIi = true := ⟨hfault, hii⟩
    rw [hhead.1, hhead.2] at hr'
    simp at hr'
  · rw [h.serial (.inr hs) _ hin] at hz
    cases hz

theorem Working.head_inRob (h : s.Working m) (hr : (s.coreCtl i).tRetire = true) :
    s.core.InRob (idx s.core.rRobHeadPtr) := by
  refine ⟨0, ?_, slot_zero _⟩
  rw [Nat.pos_iff_ne_zero]
  exact fun h0 => Bool.false_ne_true
    ((h.leaving hr).2.1.symm.trans (Core.robCount_eq_zero.mp h0))

theorem Working.next_inRob (h : s.Working m) (hr : (s.coreCtl i).tRetireTwo = true) :
    s.core.InRob (idx s.core.rRobNextHeadPtr) ∧
      s.core.rRobComplete (idx s.core.rRobNextHeadPtr) = true := by
  have hp := h.flowing.inv.occ.ptrs
  have hw := h.flowing.faultFree.choose_spec.noWrite.2
  have hr' : (s.core.ctl (s.coreIn i)).tRetireTwo = true := hr
  have hn : s.core.nLeaving (s.coreIn i) = 2 := by
    rw [Core.nLeaving, (Core.tRetireTwo_tRetire hr').1, hr']
    rfl
  have hslot : slot s.core.rRobHeadPtr 1 = idx s.core.rRobNextHeadPtr := by
    rw [hp.robNextHead]
    rfl
  have hle := h.flowing.inv.occ.nLeaving_le (i := s.coreIn i)
  have hlt : 1 < s.core.robCount := by omega
  refine ⟨⟨1, hlt, hslot⟩, ?_⟩
  rw [← hslot]
  exact (Core.leaving_complete (i := s.coreIn i) hw hp (by omega)).2

theorem Working.next_legal (h : s.Working m) (hr : (s.coreCtl i).tRetireTwo = true)
    (hf : Core.folds (m.flow.slots (idx s.core.rRobNextHeadPtr)).decoded.op = true) :
    (m.flow.slots (idx s.core.rRobNextHeadPtr)).decoded.dstValid = false := by
  obtain ⟨hin, hc⟩ := h.next_inRob hr
  have hr' : (s.core.ctl (s.coreIn i)).tRetireTwo = true := hr
  have hd := (h.leaving (i := i) (Core.tRetireTwo_tRetire hr').1).1
  obtain ⟨f, hdec⟩ := (h.flowing.flow.slotsInv.window.slots _ hin).decoded
  by_contra hv
  rw [Bool.not_eq_false] at hv
  have hop := ((hdec ▸ decodeRiscv_foldedDst f) hf hv).1
  have hfault := (((h.results hd).done _ hin hc).illegal hop).1
  have hno := (Core.tRetireTwo_spec hr').2.2.2.1
  rw [show s.core.tRobNextHead.faulted = true from hfault] at hno
  cases hno

/-- The semantics of a list of retired instructions. -/
def Sequential (f : ArchReg → Word) (l : List RetiredUop) (g : ArchReg → Word) : Prop :=
  Executes RetiredUop.RunsOn RetiredUop.dst RetiredUop.result f l g

/-- **One cycle**: the instructions it retires, executed in order on the architectural registers,
leave those of the next cycle. -/
theorem Working.retires (h : s.Working m) (hc : s.Regular i) :
    Sequential s.arch (retiredIn m s i) (s.step i).arch := by
  have hkept : s.arch = fun a => (s.step i).exec.value (s.core.rRetireRat a) :=
    funext fun a => (h.flowing.retireRat_kept hc a).symm
  have hnew : (s.step i).arch = fun a => (s.step i).exec.value ((s.step i).core.rRetireRat a) := rfl
  have hwin := h.flowing.flow.slotsInv.window
  rw [hkept, hnew, retireRat_step]
  unfold retiredIn Sequential
  cases h1 : (s.coreCtl i).tRetire
  · have h2 : (s.coreCtl i).tRetireTwo = false := Bool.eq_false_iff.mpr fun h2 => by
      rw [show (s.coreCtl i).tRetire = true from (Core.tRetireTwo_tRetire h2).1] at h1
      cases h1
    rw [h2]
    rfl
  · obtain ⟨hd, he, hcomp⟩ := h.leaving h1
    have hin := h.head_inRob h1
    have hfin := h.flowing.finished_step hc hin ((h.results hd).done _ hin hcomp)
    have hsrc := hwin.window.sourced
    rw [Core.instrs_cons he] at hsrc
    have hone := Finished.executes (r := s.core.rRetireRat) hfin (hwin.slots _ hin) hsrc.1
      (h.head_legal h1)
    cases h2 : (s.coreCtl i).tRetireTwo
    · exact ⟨hone.1, hone.2.symm⟩
    · obtain ⟨hin2, hcomp2⟩ := h.next_inRob h2
      have hfin2 := h.flowing.finished_step hc hin2 ((h.results hd).done _ hin2 hcomp2)
      have hsrc2 := hsrc.2
      rw [Core.instrs_cons_two h.flowing.inv.occ.ptrs (Core.tRetireTwo_tRetire h2).2] at hsrc2
      have htwo := Finished.executes (r := mapped (Core.writerOf s.core.tRobHead)
        s.core.rRetireRat) hfin2 (hwin.slots _ hin2) hsrc2.1 (h.next_legal h2)
      refine ⟨hone.1, ?_⟩
      have hmid : wrote (retiredAt m s (idx s.core.rRobHeadPtr)).dst
          (retiredAt m s (idx s.core.rRobHeadPtr)).result
          (fun a => (s.step i).exec.value (s.core.rRetireRat a)) = _ := hone.2
      rw [hmid]
      exact ⟨htwo.1, htwo.2.symm⟩

/-! ### What the core shows of it -/

/-- The retirement ports. -/
def retirement (s : Back) : Retirement where
  retireValid := s.core.retireValid
  retirePc := s.core.retirePc
  retireTwoValid := s.core.retireTwoValid
  retireTwoPc := s.core.retireTwoPc
  retireRegValid := s.core.retireRegValid
  retireRegPtr := s.core.retireRegPtr
  retireRegData := s.core.retireRegData
  retireRegTwoValid := s.core.retireRegTwoValid
  retireRegTwoPtr := s.core.retireRegTwoPtr
  retireRegTwoData := s.core.retireRegTwoData

/-- The registers of the simulator after the two ports of a cycle. -/
def noted (g : ArchReg → Word) (r : Retirement) : ArchReg → Word :=
  writeIf r.retireRegTwoValid r.retireRegTwoPtr r.retireRegTwoData
    (writeIf r.retireRegValid r.retireRegPtr r.retireRegData g)

/-- The registers of the simulator follow the ports, whatever it checks. -/
theorem cycle_gpr {th : ℕ} {sc : Iss → BitVec 64 → Iss} {c d : Lockstep} {r : Retirement}
    (h : c.cycle th sc r = .ok d) : d.gpr = noted c.gpr r := by
  have hwrite : ∀ (m : Lockstep) v p w, (m.writeGpr v p w).gpr = writeIf v p w m.gpr := by
    intro m v p w
    cases v
    · rfl
    · rw [writeIf_true]
      rfl
  have hexec : ∀ {m u : Lockstep}, m.execSs th sc = .ok u → u.gpr = m.gpr := by
    intro m u hu
    unfold Lockstep.execSs at hu
    split at hu
    · obtain rfl := Except.ok.inj hu
      rfl
    · cases hu
  obtain ⟨u, hone, htwo⟩ := Lockstep.ok_of_cycle h
  have h1 : u.gpr = writeIf r.retireRegValid r.retireRegPtr r.retireRegData c.gpr := by
    rw [← hwrite]
    unfold Lockstep.checkOne at hone
    split_ifs at hone with hv hp
    · cases hw : (c.writeOne r).execSs th sc with
      | error e =>
          rw [hw] at hone
          cases hone
      | ok w =>
          rw [hw] at hone
          change w.compare r = .ok u at hone
          unfold Lockstep.compare at hone
          split_ifs at hone
          obtain rfl := Except.ok.inj hone
          exact hexec hw
    · obtain rfl := Except.ok.inj hone
      rfl
  rw [noted, ← h1, ← hwrite]
  unfold Lockstep.checkTwo at htwo
  split_ifs at htwo
  · exact hexec htwo
  · obtain rfl := Except.ok.inj htwo
    rfl

/-- The retirement of one slot, as its port shows it. -/
theorem retiredAt_eq_writeIf {b : Bool}
    (hx : b = true → Core.SlotOk p (m.flow.slots p) (s.core.rRob p)) (g : ArchReg → Word) :
    (if b then [retiredAt m s p] else []).foldl (fun f y => wrote y.dst y.result f) g =
      writeIf ((s.core.rRob p).validDst && b) (s.core.rRob p).ldst (s.core.rRob p).data g := by
  cases b
  · simp
  · rw [if_pos rfl, List.foldl_cons, List.foldl_nil, retiredAt, retired_dst (hx rfl)]
    cases hv : (s.core.rRob p).validDst <;>
      simp [Core.writerOf, hv, wrote, RetiredUop.result, RobEntry.effect]

/-- **The ports show the architectural registers**: whoever has those before a cycle and notes what
the ports show after it has those after it. -/
theorem Working.noted (h : s.Working m) (hc : s.Regular i) :
    noted s.arch (s.step i).retirement = (s.step i).arch := by
  have hwin := h.flowing.flow.slotsInv.window
  rw [(h.retires hc).final, retiredIn, List.foldl_append,
    retiredAt_eq_writeIf fun h1 => hwin.slots _ (h.head_inRob h1),
    retiredAt_eq_writeIf fun h2 => hwin.slots _ (h.next_inRob h2).1]
  rfl

theorem Working.path (h : s.Working m) : (s.step i).retirement.one ++ (s.step i).retirement.two =
    (retiredIn m s i).map fun y => y.uop.pc := by
  have hslots := h.flowing.flow.slotsInv.window.slots
  have hpc : ∀ {p} {b : Bool}, (b = true → s.core.InRob p) →
      (if b then [(s.core.rRob p).pc] else []) =
        (if b then [retiredAt m s p] else []).map fun y => y.uop.pc := by
    intro p b hin
    cases b
    · rfl
    · exact congrArg (fun x => [x]) (hslots p (hin rfl)).pc
  rw [retiredIn, List.map_append, ← hpc fun h1 => h.head_inRob h1,
    ← hpc fun h2 => (h.next_inRob h2).1]
  rfl

theorem Working.decoded (h : s.Working m) {y : RetiredUop} (hy : y ∈ retiredIn m s i) :
    ∃ f, y.uop = decodeRiscv f := by
  have hslots := h.flowing.flow.slotsInv.window.slots
  rw [retiredIn, List.mem_append] at hy
  obtain hy | hy := hy
  · split_ifs at hy with h1
    · rw [List.mem_singleton.mp hy]
      exact (hslots _ (h.head_inRob h1)).decoded
    · cases hy
  · split_ifs at hy with h2
    · rw [List.mem_singleton.mp hy]
      exact (hslots _ (h.next_inRob h2).1).decoded
    · cases hy

theorem Flowing.arch_zero (h : s.Flowing l) : s.arch 0 = 0 := by
  have hp : s.core.rRetireRat 0 = 0 := h.flow.slotsInv.window.pinned.retireRat
  rw [arch, hp]
  rfl

/-! ### Runs -/

/-- Regular runs of the machine with the log of the results. -/
def RegularResults (x : Back × ResultLog) (i : BackIn) : Prop := x.1.Regular i

/-- The instructions retired in a run, oldest first. -/
def trace : Back × ResultLog → List BackIn → List RetiredUop
  | _, [] => []
  | x, i :: is => retiredIn x.2 x.1 i ++ trace (resultMachine.step x i) is

/-- What the core shows of retirement in a run, cycle by cycle. -/
def shown : Back → List BackIn → List Retirement
  | _, [] => []
  | s, i :: is => (s.step i).retirement :: shown (s.step i) is

variable {x : Back × ResultLog} {is : List BackIn}

theorem trace_sequential (h : x.1.Working x.2) (ha : resultMachine.Allowed RegularResults x is) :
    Sequential x.1.arch (trace x is) (resultMachine.run x is).1.arch := by
  induction is generalizing x with
  | nil => rfl
  | cons i is ih => exact (h.retires ha.1).append (ih (h.step ha.1) ha.2)

theorem trace_path (h : x.1.Working x.2) (ha : resultMachine.Allowed RegularResults x is) :
    Retirement.path (shown x.1 is) = (trace x is).map fun y => y.uop.pc := by
  induction is generalizing x with
  | nil => rfl
  | cons i is ih =>
      rw [shown, trace, List.map_append, ← h.path, ← ih (h.step ha.1) ha.2]
      exact Lockstep.path_cons.trans (List.append_assoc _ _ _).symm

theorem trace_decoded (h : x.1.Working x.2) (ha : resultMachine.Allowed RegularResults x is) :
    ∀ y ∈ trace x is, ∃ f, y.uop = decodeRiscv f := by
  induction is generalizing x with
  | nil => exact fun y hy => by cases hy
  | cons i is ih =>
      intro y hy
      obtain hy | hy := List.mem_append.mp hy
      · exact h.decoded hy
      · exact ih (h.step ha.1) ha.2 y hy

/-- The registers that the lock-step checker compares are the architectural registers. -/
theorem trace_gpr (h : x.1.Working x.2) (ha : resultMachine.Allowed RegularResults x is) {th : ℕ}
    {sc : Iss → BitVec 64 → Iss} {c d : Lockstep} (hc : c.gpr = x.1.arch)
    (hr : c.run th sc (shown x.1 is) = .ok d) : d.gpr = (resultMachine.run x is).1.arch := by
  induction is generalizing x c with
  | nil =>
      obtain rfl := Except.ok.inj hr
      exact hc
  | cons i is ih =>
      rw [shown, Lockstep.run_cons] at hr
      cases hu : c.cycle th sc (x.1.step i).retirement with
      | error e =>
          rw [hu] at hr
          cases hr
      | ok u =>
          rw [hu] at hr
          refine ih (x := resultMachine.step x i) (h.step ha.1) ha.2 ?_ hr
          rw [cycle_gpr hu, hc]
          exact h.noted ha.1

/-- **Retirement is sequential execution.**  In every run from reset in which no architectural
fault is taken and every register handed out is free, the instructions retired, executed one after
the other on the architectural registers, have the effects that their ROB entries say and leave the
architectural registers of the state reached: nothing that is executed out of order, speculatively
or past a restart shows.  Register 0 reads as zero, the pcs on the retirement ports are those of
these instructions, each of them was decoded from some instruction word, and the registers that the
lock-step checker keeps are the architectural ones as long as it runs. -/
theorem retirement_sequential (h : resultMachine.Reach RegularResults x)
    (ha : resultMachine.Allowed RegularResults x is) :
    Sequential x.1.arch (trace x is) (resultMachine.run x is).1.arch ∧ x.1.arch 0 = 0 ∧
      Retirement.path (shown x.1 is) = ((trace x is).map fun y => y.uop.pc) ∧
      (∀ y ∈ trace x is, ∃ f, y.uop = decodeRiscv f) ∧
      ∀ th sc (c d : Lockstep), c.gpr = x.1.arch → c.run th sc (shown x.1 is) = .ok d →
        d.gpr = (resultMachine.run x is).1.arch := by
  have hx := reach_working h
  exact ⟨trace_sequential hx ha, hx.flowing.arch_zero, trace_path hx ha, trace_decoded hx ha,
    fun _ _ _ _ hc hr => trace_gpr hx ha hc hr⟩

/-! ### A run -/

instance (x : Back × ResultLog) (i : BackIn) : Decidable (RegularResults x i) :=
  inferInstanceAs (Decidable (x.1.Regular i))

/-- The log of a machine that starts up. -/
def startResults (s : Back) : ResultLog := { emptyResults with flow := startFlow s }

theorem reach_boot_results : resultMachine.Reach RegularResults (boot, startResults boot) := by
  refine reach_boot (M := resultMachine) (fun s => (s, startResults s)) BackIn.idle
    (.reset ⟨reset_start, rfl⟩) ?_
  rintro s (rfl | ⟨n, a, b, rfl⟩)
  · exact ⟨⟨nofun, nofun, nofun⟩, rfl⟩
  · obtain ⟨hc, hs⟩ := asleep_regular n a b
    refine ⟨hc, congrArg (Prod.mk _) ?_⟩
    obtain ⟨hv, -⟩ := L1d.walking_quiet a b ((asleep n a b).l1dIn BackIn.idle)
    have hans : writeIf ((asleep n a b).l1dCtl BackIn.idle).nCoreMemRspValid
        ((asleep n a b).l1dCtl BackIn.idle).nCoreMemRsp.robPtr
        ((asleep n a b).l1dCtl BackIn.idle).nCoreMemRsp emptyResults.answers =
          emptyResults.answers := by
      rw [show ((asleep n a b).l1dCtl BackIn.idle).nCoreMemRspValid = false from hv]
      rfl
    exact congrArg₂ ResultLog.mk hs hans

/-- The machine from `boot` fetches `addi x1, x0, 5` and `add x2, x1, x1`. -/
def addRun : List BackIn := addInputs ++ List.replicate 4 BackIn.idle

/-- They retire with the results 5 and 10, which are then the values of `x1` and `x2`. -/
theorem retirement_sequential_add :
    Sequential boot.arch (trace (boot, startResults boot) addRun)
      (resultMachine.run (boot, startResults boot) addRun).1.arch ∧
    ((trace (boot, startResults boot) addRun).map fun y => (y.dst, y.result)) =
      [(some 1, 5), (some 2, 10)] ∧
    (resultMachine.run (boot, startResults boot) addRun).1.arch 2 = 10 :=
  ⟨(retirement_sequential reach_boot_results (by decide +kernel)).1, by decide +kernel,
    by decide +kernel⟩

end Back
end Rv32Core
