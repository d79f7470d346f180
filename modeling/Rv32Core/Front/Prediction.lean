import Rv32Core.Checker.Flow
import Rv32Core.Front.History

/-! # No silent misprediction

Fetch decides where to go on from the class the predecoder gives a word; the decoder and the two
integer ports judge that decision later from the word itself and the prediction that travelled
with it.  An instruction is `Predicted` when what travels with it fits its class: nothing but a
branch is predicted taken, a jump always is, and a branch or `JAL` predicted taken carries its own
target.  Everything pushed is `Predicted`, and an instruction whose prediction no port rejects is
followed by the one execution continues with (`no_silent_misprediction`). -/

namespace Rv32Core

open Clocked Walk

/-! ### Predictions and classes -/

/-- The prediction of an instruction fits its class. -/
structure InsnFetch.Predicted (x : InsnFetch) : Prop where
  plain : predecode x.data = 0 → x.pred = false
  jump : predecode x.data ≠ 0 → predecode x.data ≠ 1 → x.pred = true
  branch : predecode x.data = 1 → x.pred = true → x.predTarget = x.pc + immB x.data
  jal : predecode x.data = 3 ∨ predecode x.data = 5 → x.predTarget = x.pc + immJ x.data

theorem predecode_branch {insn : Word} (hop : opcodeField insn = 0x63) : predecode insn = 1 :=
  if_pos hop

theorem predecode_jalr_ne {insn : Word} (hop : opcodeField insn = 0x67) :
    predecode insn ≠ 0 ∧ predecode insn ≠ 1 := by
  unfold predecode
  rw [hop]
  dsimp only
  split_ifs <;> first | contradiction | decide

theorem predecode_jal_eq {insn : Word} (hop : opcodeField insn = 0x6f) :
    predecode insn = 3 ∨ predecode insn = 5 := by
  unfold predecode
  rw [hop]
  dsimp only
  split_ifs <;> first | contradiction | decide

/-! ### What is pushed -/

namespace L1i

variable {s : L1i} {i : L1iIn}

/-- Only the first of the instructions pushed together carries a prediction. -/
theorem pushed_unpredicted {x : InsnFetch} (hx : x ∈ (s.pushed i).tail) : x.pred = false := by
  have hsub : x ∈ (s.candidates i).tail := by
    rw [pushed] at hx
    cases hn : s.nPushed i with
    | zero =>
        rw [hn] at hx
        cases hx
    | succ n =>
        rw [hn] at hx
        exact List.mem_of_mem_take hx
  simp only [candidates, List.tail_cons, List.mem_cons, List.not_mem_nil, or_false] at hsub
  obtain rfl | rfl | rfl := hsub <;> rfl

theorem not_jumps_of_plain (h : s.tPd = 0) : s.jumps = false := by
  rw [jumps, h]
  rfl

/-- **What is pushed is predicted by its class.** -/
theorem ClassesOk.predicted (hc : s.ClassesOk) {x : InsnFetch} (hx : x ∈ s.pushed i) :
    x.Predicted := by
  rcases s.silent_or_delivers i with h | ⟨n, h⟩
  · rw [pushed_of_silent h] at hx
    cases hx
  · obtain ⟨l, hl, hpd, hplain⟩ := hc.pushed h
    obtain ⟨-, htake, htarget⟩ := h.hist
    have hpred : (s.tInsn i).pred = s.jumps := htake
    have hgo : s.jumps = true → (s.tInsn i).predTarget = s.jumpTarget := htarget
    have htail : ∀ y ∈ l, y.pred = false := fun y hy => by
      refine pushed_unpredicted (s := s) (i := i) ?_
      rw [hl]
      exact hy
    rw [hl, List.mem_cons] at hx
    obtain rfl | hx := hx
    · constructor
      · intro h0
        rw [hpred, not_jumps_of_plain (hpd ▸ h0)]
      · intro h0 h1
        rw [hpd] at h0 h1
        have h6 := predecode_le (s.tInsn i).data
        rw [hpd] at h6
        rw [hpred, jumps_of_class h0 h1 h6]
      · intro h1 hp
        rw [hpd] at h1
        rw [hgo (hpred ▸ hp), jumpTarget, h1]
        rfl
      · intro hj
        rw [hpd] at hj
        have hjumps : s.jumps = true := by
          rcases hj with hj | hj <;> rw [jumps, hj] <;> simp
        rw [hgo hjumps, jumpTarget, if_pos hj.symm]
        rfl
    · have h0 := hplain x hx
      refine ⟨fun _ => htail x hx, fun hne => absurd h0 hne, fun h1 => ?_, fun hj => ?_⟩
      · rw [h0] at h1
        cases h1
      · rw [h0] at hj
        rcases hj with hj | hj <;> cases hj

end L1i

/-! ### What execution makes of it -/

section Execution

variable {x : InsnFetch}

theorem predicted_decodeJalr (x : InsnFetch) : (decodeJalr x).predicted = x.predTarget := by
  show x.predTarget.extractLsb' 16 16 ++ x.predTarget.extractLsb' 0 16 = x.predTarget
  ext k hk
  simp only [BitVec.getElem_append, BitVec.getElem_extractLsb']
  split_ifs with h
  · simp [BitVec.getLsbD_eq_getElem hk]
  · rw [Nat.add_sub_cancel' (by omega), BitVec.getLsbD_eq_getElem hk]

theorem nextPc_plain (hx : x.Predicted) (hb : (decodeRiscv x).isBr = false) :
    x.nextPc = x.pc + 4 := by
  have h0 : predecode x.data = 0 := by
    by_contra h0
    rw [(isBr_iff_predecode x).mpr h0] at hb
    cases hb
  rw [InsnFetch.nextPc, hx.plain h0]
  rfl

theorem nextPc_jal (hx : x.Predicted) (hop : opcodeField x.data = 0x6f) :
    x.pred = true ∧ x.nextPc = x.pc + immJ x.data := by
  have hj := predecode_jal_eq hop
  have hp : x.pred = true := by
    refine hx.jump ?_ ?_ <;> rcases hj with hj | hj <;> rw [hj] <;> decide
  refine ⟨hp, ?_⟩
  rw [InsnFetch.nextPc, hp, if_pos rfl, hx.jal hj]

theorem nextPc_branch (hx : x.Predicted) (hop : opcodeField x.data = 0x63) {take : Bool}
    (ht : (x.pred != take) = false) :
    x.nextPc = if take then wPcImm x.pc x.data else x.pc + 4 := by
  obtain rfl : x.pred = take := bne_eq_false_iff_eq.mp ht
  rw [InsnFetch.nextPc]
  cases hp : x.pred
  · rfl
  · rw [if_pos rfl, if_pos rfl, hx.branch (predecode_branch hop) hp, wPcImm, tImm_branch hop]

theorem nextPc_jalr (hx : x.Predicted) (hop : opcodeField x.data = 0x67) {target : Word}
    (ht : (target != (decodeJalr x).predicted) = false) : x.nextPc = target := by
  obtain ⟨h0, h1⟩ := predecode_jalr_ne hop
  rw [predicted_decodeJalr] at ht
  rw [InsnFetch.nextPc, hx.jump h0 h1, if_pos rfl, bne_eq_false_iff_eq.mp ht]

theorem decodeRiscv_pc (x : InsnFetch) : (decodeRiscv x).pc = x.pc := by
  cases major x with
  | system _ hd _ =>
      rw [hd]
      unfold decodeSystem decodeCounter
      dsimp only
      split_ifs <;> rfl
  | load _ hd _ | fence _ hd _ | opImm _ hd _ | auipc _ hd _ | store _ hd _ | op _ hd _
  | lui _ hd _ | branch _ hd _ | jalr _ hd _ | jal _ hd _ | other _ hd _ =>
      rw [hd]
      rfl

theorem jal_of_op (x : InsnFetch) (ho : (decodeRiscv x).op = .j ∨ (decodeRiscv x).op = .jal) :
    opcodeField x.data = 0x6f := by
  have hbr : ∀ k ∈ UopKind.decoded, k.op = .j ∨ k.op = .jal → k.isBr = true := by decide
  have hbranch : ∀ k ∈ UopKind.branch, ¬(k.op = .j ∨ k.op = .jal) := by decide
  have hjalr : ∀ k ∈ UopKind.jalr, ¬(k.op = .j ∨ k.op = .jal) := by decide
  cases branchUop (hbr _ (decodeRiscv_kind x) ho) with
  | branch _ hd => exact absurd (hd ▸ ho) (hbranch _ (decodeBranch_kind x))
  | jalr _ hd => exact absurd (hd ▸ ho) (hjalr _ (decodeJalr_kind x))
  | jal hop _ => exact hop

/-- The next pc that a port finds, unless it reports a misprediction. -/
theorem Uop.eval_pc {x : InsnFetch} {u : Uop} (hu : u.Renames (decodeRiscv x)) (hx : x.Predicted)
    (hb : u.isBr = true) (hf : Core.folds u.op = false) (c : Counters) (a b : Word) :
    OnBothPorts u.op = true ∧ ((u.eval c a b).mispredBr = false → x.nextPc = (u.eval c a b).pc) := by
  obtain ⟨_, _, _, _, rfl⟩ := hu
  dsimp only at hb hf ⊢
  cases branchUop hb with
  | branch hop hd =>
      rw [hd] at hf ⊢
      have hops : (decodeBranch x).op ∈ [Opcode.beq, .bne, .blt, .bge, .bltu, .bgeu, .ii] := by
        simp only [decodeBranch]
        split_ifs <;> simp
      simp only [List.mem_cons, List.not_mem_nil, or_false] at hops
      obtain ho | ho | ho | ho | ho | ho | ho := hops
      case inr.inr.inr.inr.inr.inr =>
        rw [ho] at hf
        cases hf
      all_goals
        refine ⟨by rw [ho]; rfl, fun hm => ?_⟩
        simp only [Uop.eval, ho] at hm ⊢
        exact nextPc_branch hx hop hm
  | jalr hop hd =>
      rw [hd]
      have hops : (decodeJalr x).op ∈ [Opcode.ret, .jr, .jalr] := by
        simp only [decodeJalr]
        split_ifs <;> simp
      simp only [List.mem_cons, List.not_mem_nil, or_false] at hops
      obtain ho | ho | ho := hops
      all_goals
        refine ⟨by rw [ho]; rfl, fun hm => ?_⟩
        simp only [Uop.eval, ho] at hm ⊢
        exact nextPc_jalr hx hop hm
  | jal hop hd =>
      rw [hd] at hf ⊢
      by_cases h0 : rdField x.data = 0
      · have ho : (decodeJal x).op = .j := if_pos h0
        rw [ho] at hf
        cases hf
      · have ho : (decodeJal x).op = .jal := if_neg h0
        refine ⟨by rw [ho]; rfl, fun _ => ?_⟩
        simp only [Uop.eval, ho]
        rw [(nextPc_jal hx hop).2, ← tImm_jal hop]
        rfl

theorem isBr_of_nop {x : InsnFetch} (ho : (decodeRiscv x).op = .nop) :
    (decodeRiscv x).isBr = false := by
  by_contra hb
  rcases (branchUop (Bool.not_eq_false _ |>.mp hb)).cases with h | ⟨h, -⟩ | ⟨h, -⟩ <;>
    rw [ho] at h <;> cases h

end Execution

/-! ### Runs -/

/-- The surroundings of the instruction cache: the core takes what is offered, and the lower level
answers, with any line, while it is asked. -/
structure TrailEnv (x : L1i × Fetch) (i : FetchIn) : Prop where
  acks : x.1.Acks i.port
  answer : i.port.memRspValid = true → x.1.rState = .injectReload

/-- What holds of the instructions of an epoch, whatever the memory answers. -/
structure Epoch.Trail (e : Epoch) (s : L1i) : Prop where
  walk : IsWalk InsnFetch.pc InsnFetch.nextPc e.restartPc e.pushed s.expectedPc
  predicted : ∀ x ∈ e.pushed, x.Predicted
  queue : e.pushed = e.popped ++ s.fqView
  ptrs : s.FqPtrs

/-- The invariant of the instruction cache and its observer. -/
structure TrailInv (s : L1i) (f : Fetch) : Prop where
  registers : s.Registers
  classes : s.ClassesOk
  running : f.epoch.isSome = s.running
  epoch : ∀ e, f.epoch = some e → e.Trail s

variable {s : L1i} {f : Fetch} {i : FetchIn}

theorem Epoch.Trail.restart (h : (s.ctl i.port).nRestartAck = true) :
    Epoch.Trail ⟨i.port.restartPc, [], []⟩ (s.step i.port) := by
  have hok := Epoch.Ok.restart h
  exact ⟨hok.walk, fun x hx => (List.not_mem_nil hx).elim, hok.queue, hok.ptrs⟩

theorem Epoch.Trail.step {e : Epoch} (h : e.Trail s) (hg : s.Registers) (hc : s.ClassesOk)
    (hr : s.running = true) (ha : s.Acks i.port) (hclr : (s.ctl i.port).tClearFq = false) :
    Epoch.Trail
      { e with groups := e.groups ++ [s.pushed i.port], popped := e.popped ++ s.popped i.port }
      (s.step i.port) := by
  obtain ⟨hwalk, hpredicted, hqueue⟩ := Epoch.step rfl h.walk h.predicted
    (fun _ hx => hc.predicted hx) h.queue h.ptrs hg hr ha hclr
  exact ⟨hwalk, hpredicted, hqueue, h.ptrs.step ha⟩

theorem TrailInv.step (h : TrailInv s f) (he : TrailEnv (s, f) i) :
    TrailInv (s.step i.port) (f.next s i) := by
  refine ⟨h.registers.step, h.classes.step he.answer, ?_, fun e' hnext => ?_⟩
  · rw [L1i.running_step, ← h.running]
    cases hack : (s.ctl i.port).nRestartAck <;> cases hclr : (s.ctl i.port).tClearFq <;>
      simp [Fetch.next, hack, hclr]
  · cases hack : (s.ctl i.port).nRestartAck
    case true =>
      obtain rfl : _ = e' := Option.some.inj ((if_pos hack).symm.trans hnext)
      exact .restart hack
    cases hclr : (s.ctl i.port).tClearFq
    case true => simp [Fetch.next, hack, hclr] at hnext
    have hmap : (f.next s i).epoch = f.epoch.map fun e =>
        { e with groups := e.groups ++ [s.pushed i.port], popped := e.popped ++ s.popped i.port } := by
      simp [Fetch.next, hack, hclr]
    obtain ⟨e, hfe, rfl⟩ := Option.map_eq_some_iff.mp (hmap ▸ hnext)
    have hr : s.running = true := by rw [← h.running, hfe]; rfl
    exact (h.epoch e hfe).step h.registers h.classes hr he.acks hclr

theorem reach_trailInv {x : L1i × Fetch} (h : fetchMachine.Reach TrailEnv x) :
    TrailInv x.1 x.2 := by
  refine h.invariant (P := fun x : L1i × Fetch => TrailInv x.1 x.2) ?_ fun x i hi he => hi.step he
  rintro ⟨s, f⟩ ⟨⟨p, rfl⟩, -, he⟩
  have he' : f.epoch = none := he
  refine ⟨.init p, .init p, ?_, fun e h => ?_⟩
  · rw [he']
    rfl
  · rw [he'] at h
    cases h

/-- **No silent misprediction.**  Of two instructions that leave the fetch queue one behind the
other, the second is where the first goes: behind it when the first is folded as a `NOP` or is no
branch, at the target the decoder computes when it is a `J` or `JAL`, which no port ever rejects,
and else at the next pc of the port that executes it, unless that port reports a misprediction. -/
theorem no_silent_misprediction (h : fetchMachine.Reach TrailEnv (s, f)) {e : Epoch}
    (he : f.epoch = some e) {xs ys : List InsnFetch} {x y : InsnFetch}
    (hd : e.popped ++ s.fqView = xs ++ x :: y :: ys) {u : Uop} (hu : u.Renames (decodeRiscv x)) :
    (u.op = .nop ∨ u.isBr = false → y.pc = u.pc + 4) ∧
    (u.op = .j ∨ u.op = .jal → x.pred = true ∧ y.pc = u.rvimm ∧ u.rvimm = u.pc + immJ x.data ∧
      ∀ c a b, (Port1.alu c u a b).mispredBr = false ∧ (Port2.alu c u a b).mispredBr = false) ∧
    (u.isBr = true → Core.folds u.op = false → ∀ c a b,
      ((Port1.alu c u a b).mispredBr = false → y.pc = (Port1.alu c u a b).pc) ∧
      ((Port2.alu c u a b).mispredBr = false → y.pc = (Port2.alu c u a b).pc)) := by
  have ho := (reach_trailInv h).epoch e he
  have hwalk := ho.walk
  rw [ho.queue, hd] at hwalk
  have hy : y.pc = x.nextPc := hwalk.consecutive
  have hx : x.Predicted := ho.predicted x (by rw [ho.queue, hd]; simp)
  obtain ⟨r1, r2, r3, r4, hu'⟩ := hu
  have hpc : u.pc = x.pc := by
    rw [hu']
    exact decodeRiscv_pc x
  have hop : u.op = (decodeRiscv x).op := by rw [hu']
  have hbr : u.isBr = (decodeRiscv x).isBr := by rw [hu']
  refine ⟨fun hn => ?_, fun hj => ?_, fun hb hf c a b => ?_⟩
  · have hb : (decodeRiscv x).isBr = false := by
      rcases hn with hn | hn
      · exact isBr_of_nop (hop ▸ hn)
      · exact hbr ▸ hn
    rw [hy, hpc, nextPc_plain hx hb]
  · have h6f := jal_of_op x (hop ▸ hj)
    obtain ⟨hp, hnext⟩ := nextPc_jal hx h6f
    have hd6 : decodeRiscv x = decodeJal x := by simp [decodeRiscv, h6f]
    have himm : u.rvimm = x.pc + immJ x.data := by
      rw [hu', hd6, ← tImm_jal h6f]
      rfl
    have hpred : u.brPred = true := by rw [hu', hd6]; rfl
    rw [hy, hnext, himm, hpc]
    refine ⟨hp, rfl, rfl, fun c a b => ?_⟩
    rcases hj with hj | hj <;> simp [Port1.alu, Port2.alu, hj, hpred, Alu.jump, Alu.default]
  · obtain ⟨hboth, hm⟩ := Uop.eval_pc ⟨r1, r2, r3, r4, hu'⟩ hx hb hf c a b
    rw [Port1.alu_eq_eval c u a b hboth, Port2.alu_eq_eval c u a b hboth, hy]
    exact ⟨hm, hm⟩

/-- Twice around the loop of `loopLine`. -/
def twiceInputs : List FetchIn := loopInputs ++ [.loop L1iIn.idle, .loop L1iIn.idle]

theorem reach_twice : fetchMachine.Reach TrailEnv
    (fetchMachine.run (L1i.ready, Fetch.loop) twiceInputs) := by
  have hready : fetchMachine.Reach TrailEnv (L1i.ready, Fetch.loop) := by
    refine L1i.reach_ready (M := fetchMachine) (fun _ s => (s, Fetch.loop)) (FetchIn.loop L1iIn.idle)
      (.reset ⟨⟨_, rfl⟩, rfl, rfl⟩) fun n s hs => ⟨⟨⟨nofun, nofun⟩, nofun⟩, ?_⟩
    exact Prod.ext rfl (next_starting hs)
  have hidle : ∀ x : L1i × Fetch, TrailEnv x (.loop L1iIn.idle) := fun x =>
    ⟨⟨nofun, nofun⟩, nofun⟩
  refine hready.run ⟨⟨⟨nofun, nofun⟩, nofun⟩, hidle _, hidle _,
    ⟨⟨nofun, nofun⟩, fun _ => rfl⟩, hidle _, hidle _, ⟨⟨fun _ => rfl, nofun⟩, nofun⟩,
    hidle _, hidle _, trivial⟩

/-- The jump at 12, as it is fetched. -/
def loopJump : InsnFetch := ⟨0xff5ff06f, 12, 0, true, 3⟩

/-- The first instruction of the loop, as it is fetched. -/
def loopHead : InsnFetch := ⟨0x00100093, 0, 16, false, 1⟩

/-- What has left the instruction cache, or is about to. -/
def twiceDelivered : Option (List InsnFetch) :=
  let x := fetchMachine.run (L1i.ready, Fetch.loop) twiceInputs
  x.2.epoch.map fun e => e.popped ++ x.1.fqView

/-- A core with the jump decoded, at the head of its queue and behind it. -/
def jumpDecoded : Core := { Core.zeroed with rDq := fun _ => decodeRiscv loopJump }

/-- The instruction behind the jump is the one it jumps to, in whichever slot it is renamed. -/
theorem no_silent_misprediction_twice : ∃ s f e xs ys, fetchMachine.Reach TrailEnv (s, f) ∧
    f.epoch = some e ∧ e.popped ++ s.fqView = xs ++ loopJump :: loopHead :: ys ∧
      loopHead.pc = (jumpDecoded.tAllocUop CoreIn.idle).rvimm ∧
      loopHead.pc = (jumpDecoded.tAllocUop2 CoreIn.idle).rvimm := by
  have hl : twiceDelivered = some (
      [⟨0x00100093, 0, 16, false, 0⟩, ⟨0x00100113, 4, 0, false, 0⟩, ⟨0x00100193, 8, 0, false, 0⟩] ++
        loopJump :: loopHead :: [⟨0x00100113, 4, 0, false, 0⟩, ⟨0x00100193, 8, 0, false, 0⟩]) := by
    decide +kernel
  unfold twiceDelivered at hl
  obtain ⟨e, he, hd⟩ := Option.map_eq_some_iff.mp hl
  have hone := no_silent_misprediction reach_twice he hd
    (jumpDecoded.tAllocUop_renames CoreIn.idle)
  have htwo := no_silent_misprediction reach_twice he hd
    (jumpDecoded.tAllocUop2_renames CoreIn.idle)
  exact ⟨_, _, e, _, _, reach_twice, he, hd, (hone.2.1 (.inl (by decide))).2.1,
    (htwo.2.1 (.inl (by decide))).2.1⟩

end Rv32Core
