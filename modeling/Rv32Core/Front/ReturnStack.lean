import Rv32Core.Front.Restart
import Rv32Core.L1i.Classes
import Rv32Core.Checker.Words

/-! # The return stacks

The instruction cache keeps a stack of return addresses that follows what is fetched and one
that follows what is retired, and an acknowledged restart copies the second over the first.

The copy is taken before the retirement of the cycle before it has arrived, so a mispredicted
call or return that is granted its restart at once is lost.  And fetch classifies a `JAL` by its
link register where the core does not: one that links elsewhere than `x1` or `x5` moves only the
architectural stack.  Apart from these two the stacks agree (`return_stack_recovery`). -/

namespace Rv32Core

open RingBuffer Rv32Core.Core

/-- What an instruction does to a return stack. -/
inductive StackMove
  | keep | call | ret
deriving DecidableEq

/-- A return stack: where the next call is written, and the links. -/
structure ReturnStack where
  tos : BitVec 2
  links : BitVec 2 → Word

/-- One instruction: a call writes its link (`w`: it has one) and moves the pointer down. -/
def ReturnStack.move (r : ReturnStack) (m : StackMove) (w : Bool) (link : Word) : ReturnStack :=
  match m with
  | .keep => r
  | .call => ⟨r.tos - 1, r.links |> writeIf w r.tos link⟩
  | .ret => ⟨r.tos + 1, r.links⟩

/-- The move of a uop, `is_call` and `is_ret` of `t_rob_tail`. -/
def Uop.stackMove (u : Uop) : StackMove :=
  if u.op == .jal || u.op == .jalr then .call else if u.op == .ret then .ret else .keep

def RobEntry.stackMove (e : RobEntry) : StackMove :=
  if e.isCall then .call else if e.isRet then .ret else .keep

/-- The move fetch makes for a word. -/
def fetchMove (w : Word) : StackMove :=
  if predecode w = 5 ∨ predecode w = 6 then .call else if predecode w = 2 then .ret else .keep

/-- A `JAL` that writes its link to a register other than `x1` and `x5`. -/
def LinksElsewhere (w : Word) : Prop :=
  opcodeField w = 0x6f ∧ rdField w ≠ 0 ∧ rdField w ≠ 1 ∧ rdField w ≠ 5

instance (w : Word) : Decidable (LinksElsewhere w) := by
  unfold LinksElsewhere
  infer_instance

/-! ### Classification -/

/-- Calls and returns are seen at the pointer. -/
theorem ReturnStack.move_eq_self {r : ReturnStack} {m : StackMove} {w : Bool} {link : Word} :
    r.move m w link = r ↔ m = .keep := by
  have hmoves : ∀ t : BitVec 2, t - 1 ≠ t ∧ t + 1 ≠ t := by decide
  constructor
  · intro h
    have ht := congrArg ReturnStack.tos h
    cases m with
    | keep => rfl
    | call =>
        have ht' : r.tos - 1 = r.tos := ht
        exact absurd ht' (hmoves r.tos).1
    | ret =>
        have ht' : r.tos + 1 = r.tos := ht
        exact absurd ht' (hmoves r.tos).2
  · rintro rfl
    rfl

theorem stackMove_of_opcode (f : InsnFetch) (h67 : opcodeField f.data ≠ 0x67)
    (h6f : opcodeField f.data ≠ 0x6f) : (decodeRiscv f).stackMove = .keep := by
  have hbr : ∀ k ∈ UopKind.decoded, k.isBr = false → k.op ≠ .jal ∧ k.op ≠ .jalr ∧ k.op ≠ .ret := by
    decide
  have hbranch : ∀ k ∈ UopKind.branch, k.op ≠ .jal ∧ k.op ≠ .jalr ∧ k.op ≠ .ret := by decide
  obtain ⟨h1, h2, h3⟩ : (decodeRiscv f).op ≠ .jal ∧ (decodeRiscv f).op ≠ .jalr ∧
      (decodeRiscv f).op ≠ .ret := by
    cases hb : (decodeRiscv f).isBr with
    | false => exact hbr _ (decodeRiscv_kind f) hb
    | true =>
        cases branchUop hb with
        | branch _ hd => exact hd ▸ hbranch _ (decodeBranch_kind f)
        | jalr hop _ => exact absurd hop h67
        | jal hop _ => exact absurd hop h6f
  simp [Uop.stackMove, h1, h2, h3]

theorem field_eq_iff (r : BitVec 5) :
    (r.setWidth 6 = (0 : PrfPtr) ↔ r = 0) ∧ (r.setWidth 6 = (1 : PrfPtr) ↔ r = 1) ∧
      (r.setWidth 6 = (5 : PrfPtr) ↔ r = 5) := by
  revert r
  decide

theorem predecode_jalr {w : Word} (hop : opcodeField w = 0x67) :
    predecode w = if rdField w = 0 then (if isLink (rs1Field w) then 2 else 4) else 6 := by
  obtain ⟨hrd, -, -⟩ := field_eq_iff (w.extractLsb' 7 5)
  obtain ⟨-, h1, h5⟩ := field_eq_iff (w.extractLsb' 15 5)
  have hlink : isLink (rs1Field w) = true ↔
      w.extractLsb' 15 5 = 1 ∨ w.extractLsb' 15 5 = 5 := by
    rw [isLink, Bool.or_eq_true, beq_iff_eq, beq_iff_eq]
    exact or_congr h1 h5
  unfold predecode
  rw [hop, if_neg (by decide), if_pos rfl]
  exact if_congr hrd.symm (if_congr hlink.symm rfl rfl) rfl

theorem predecode_jal {w : Word} (hop : opcodeField w = 0x6f) :
    predecode w = if rdField w = 1 ∨ rdField w = 5 then 5 else 3 := by
  obtain ⟨-, h1, h5⟩ := field_eq_iff (w.extractLsb' 7 5)
  unfold predecode
  rw [hop, if_neg (by decide), if_neg (by decide), if_pos rfl]
  exact if_congr (or_congr h1.symm h5.symm) rfl rfl

theorem fetchMove_jalr (x : InsnFetch) (hop : opcodeField x.data = 0x67)
    (hd : decodeRiscv x = decodeJalr x) : fetchMove x.data = (decodeRiscv x).stackMove := by
  have hdec : (decodeJalr x).op =
      if rdField x.data = 0 then (if isLink (rs1Field x.data) then .ret else .jr) else .jalr := rfl
  rw [hd, fetchMove, predecode_jalr hop, Uop.stackMove, hdec]
  by_cases hz : rdField x.data = 0
  · simp only [if_pos hz]
    cases isLink (rs1Field x.data) <;> decide
  · simp only [if_neg hz]
    decide

theorem fetchMove_jal (x : InsnFetch) (hop : opcodeField x.data = 0x6f)
    (hd : decodeRiscv x = decodeJal x) :
    fetchMove x.data = (if rdField x.data = 1 ∨ rdField x.data = 5 then .call else .keep) ∧
      (decodeRiscv x).stackMove = if rdField x.data = 0 then .keep else .call := by
  have hdec : (decodeJal x).op = if rdField x.data = 0 then .j else .jal := rfl
  constructor
  · rw [fetchMove, predecode_jal hop]
    by_cases hl : rdField x.data = 1 ∨ rdField x.data = 5
    · simp only [if_pos hl]
      decide
    · simp only [if_neg hl]
      decide
  · rw [hd, Uop.stackMove, hdec]
    by_cases hz : rdField x.data = 0
    · simp only [if_pos hz]
      decide
    · simp only [if_neg hz]
      decide

/-- **Fetch and retirement classify a word alike**, but for a `JAL` that links elsewhere. -/
theorem fetchMove_eq_iff (x : InsnFetch) :
    fetchMove x.data = (decodeRiscv x).stackMove ↔ ¬LinksElsewhere x.data := by
  by_cases h67 : opcodeField x.data = 0x67
  · have hne : opcodeField x.data ≠ 0x6f := by rw [h67]; decide
    exact iff_of_true (fetchMove_jalr x h67 (by simp [decodeRiscv, h67])) fun h => hne h.1
  by_cases h6f : opcodeField x.data = 0x6f
  · obtain ⟨hfetch, hretire⟩ := fetchMove_jal x h6f (by simp [decodeRiscv, h6f])
    rw [hfetch, hretire, LinksElsewhere]
    by_cases hl : rdField x.data = 1 ∨ rdField x.data = 5
    · have hz : rdField x.data ≠ 0 := by rcases hl with h | h <;> rw [h] <;> decide
      rw [if_pos hl, if_neg hz]
      exact iff_of_true rfl fun h => hl.elim h.2.2.1 h.2.2.2
    · rw [if_neg hl]
      by_cases hz : rdField x.data = 0
      · rw [if_pos hz]
        exact iff_of_true rfl fun h => h.2.1 hz
      · rw [if_neg hz]
        exact iff_of_false (by decide) fun h => h ⟨h6f, hz, not_or.mp hl⟩
  · refine iff_of_true ?_ fun h => h6f h.1
    rw [stackMove_of_opcode x h67 h6f]
    unfold fetchMove predecode
    split_ifs <;> simp_all

theorem stackMove_of_plain {x : InsnFetch} (h : predecode x.data = 0) :
    (decodeRiscv x).stackMove = .keep ∧ ¬LinksElsewhere x.data := by
  have hkeep : fetchMove x.data = .keep := by rw [fetchMove, h]; rfl
  have hno : ¬LinksElsewhere x.data := by
    rintro ⟨hop, -⟩
    unfold predecode at h
    rw [hop] at h
    revert h
    simp only []
    split_ifs <;> decide
  exact ⟨hkeep ▸ ((fetchMove_eq_iff x).mpr hno).symm, hno⟩

/-! ### Fetch -/

/-- Distinct moves lead to distinct stacks. -/
theorem ReturnStack.move_inj {r : ReturnStack} {m m' : StackMove} {w : Bool} {link : Word} :
    r.move m w link = r.move m' w link ↔ m = m' := by
  have hmoves : ∀ t : BitVec 2, t - 1 ≠ t ∧ t + 1 ≠ t ∧ t - 1 ≠ t + 1 := by decide
  obtain ⟨h1, h2, h3⟩ := hmoves r.tos
  constructor
  · intro h
    have ht := congrArg ReturnStack.tos h
    cases m <;> cases m'
    case keep.keep | call.call | ret.ret => rfl
    case keep.call => exact absurd ht.symm h1
    case keep.ret => exact absurd ht.symm h2
    case call.keep => exact absurd ht h1
    case call.ret => exact absurd ht h3
    case ret.keep => exact absurd ht h2
    case ret.call => exact absurd ht.symm h3
  · rintro rfl
    rfl

namespace ReturnStack

/-- The stack after the instructions `l`, each with the move that `m` gives it. -/
def follow (m : InsnFetch → StackMove) (r : ReturnStack) (l : List InsnFetch) : ReturnStack :=
  l.foldl (fun r x => r.move (m x) true (x.pc + 4)) r

theorem follow_keep {m : InsnFetch → StackMove} {l : List InsnFetch} (h : ∀ x ∈ l, m x = .keep)
    (r : ReturnStack) : r.follow m l = r := by
  induction l with
  | nil => rfl
  | cons x l ih =>
      rw [follow, List.foldl_cons, h x (List.mem_cons_self ..)]
      exact ih fun y hy => h y (List.mem_cons_of_mem _ hy)

theorem follow_cons {m : InsnFetch → StackMove} {x : InsnFetch} {l : List InsnFetch}
    (h : ∀ y ∈ l, m y = .keep) (r : ReturnStack) :
    r.follow m (x :: l) = r.move (m x) true (x.pc + 4) := follow_keep h _

end ReturnStack

namespace L1i

variable {s : L1i} {i : L1iIn}

def specStack (s : L1i) : ReturnStack := ⟨s.rSpecRsTos, s.rSpecReturnStack⟩

def archStack (s : L1i) : ReturnStack := ⟨s.rArchRsTos, s.rArchReturnStack⟩

/-- **Fetch moves the stack by the first instruction it pushes.** -/
theorem specStack_step (hc : s.ClassesOk) (hk : (s.ctl i).nRestartAck = false) :
    (s.step i).specStack = s.specStack.follow (fun x => fetchMove x.data) (s.pushed i) := by
  have htos : (s.step i).rSpecRsTos = if (s.ctl i).tIsCall then s.rSpecRsTos - 1
      else if (s.ctl i).tIsRet then s.rSpecRsTos + 1 else s.rSpecRsTos := by
    show s.nSpecRsTos i = _
    rw [nSpecRsTos, hk]
    rfl
  have hmem : (s.step i).rSpecReturnStack =
      writeIf (s.ctl i).tIsCall s.rSpecRsTos (s.rCachePc + 4) s.rSpecReturnStack := by
    show s.nSpecReturnStack i = _
    rw [nSpecReturnStack, hk]
    cases (s.ctl i).tIsCall <;> rfl
  rcases s.silent_or_delivers i with h | ⟨n, h⟩
  · rw [pushed_of_silent h, specStack, htos, hmem, h.call, h.ret]
    rfl
  · obtain ⟨l, hl, hpd, hplain⟩ := hc.pushed h
    rw [hl, ReturnStack.follow_cons fun y hy => by rw [fetchMove, hplain y hy]; rfl, fetchMove, hpd,
      specStack, htos, hmem, h.call, h.ret]
    by_cases h56 : s.tPd = 5 ∨ s.tPd = 6
    · rw [if_pos h56]
      rcases h56 with h56 | h56 <;> rw [h56] <;> rfl
    · rw [if_neg h56, beq_eq_false_iff_ne.mpr (not_or.mp h56).1,
        beq_eq_false_iff_ne.mpr (not_or.mp h56).2]
      by_cases h2 : s.tPd = 2
      · rw [h2]
        rfl
      · rw [if_neg h2, beq_eq_false_iff_ne.mpr h2]
        rfl

/-- **Fetch moves the stack as retirement will**, unless it pushes a `JAL` that links
elsewhere. -/
theorem specStack_step_iff (hc : s.ClassesOk) (hk : (s.ctl i).nRestartAck = false) :
    (s.step i).specStack = s.specStack.follow (fun x => (decodeRiscv x).stackMove) (s.pushed i) ↔
      ∀ x ∈ s.pushed i, ¬LinksElsewhere x.data := by
  have hplain := fun x hx => pushed_plain (s := s) (i := i) (x := x) (fun hs _ hh => hc.hit hs hh) hx
  rw [specStack_step hc hk]
  cases hp : s.pushed i with
  | nil => exact iff_of_true rfl fun x hx => (List.not_mem_nil hx).elim
  | cons x l =>
      rw [hp] at hplain
      have hfetch : ∀ y ∈ l, fetchMove y.data = .keep := fun y hy => by
        rw [fetchMove, hplain y hy]
        rfl
      have hretire : ∀ y ∈ l, (decodeRiscv y).stackMove = .keep := fun y hy =>
        (stackMove_of_plain (hplain y hy)).1
      rw [ReturnStack.follow_cons hfetch, ReturnStack.follow_cons hretire, ReturnStack.move_inj,
        fetchMove_eq_iff, List.forall_mem_cons]
      exact (and_iff_left fun y hy => (stackMove_of_plain (hplain y hy)).2).symm

theorem specStack_restart (hk : (s.ctl i).nRestartAck = true) :
    (s.step i).specStack = s.archStack := by
  have hcall := (silent_of_ack hk).call
  have htos : (s.step i).rSpecRsTos = s.rArchRsTos := if_pos hk
  have hmem : (s.step i).rSpecReturnStack = s.rArchReturnStack := by
    show s.nSpecReturnStack i = _
    rw [nSpecReturnStack, hcall, hk]
    rfl
  rw [specStack, htos, hmem]
  rfl

end L1i

/-! ### Retirement -/

/-- The architectural return stack at reset and the entries retired since. -/
structure Retired where
  start : ReturnStack
  entries : List RobEntry

/-- The stack after every retired call and return, in order. -/
def Retired.stack (h : Retired) : ReturnStack :=
  h.entries.foldl (fun r e => r.move e.stackMove e.validDst e.data) h.start

def Retired.next (h : Retired) (s : Front) (i : FrontIn) : Retired :=
  ⟨h.start, h.entries ++ s.core.retired (s.coreIn i)⟩

namespace Front

variable {s : Front} {i : FrontIn} {h : Retired}

/-- What the retirement of the cycle before, still on its way, does to the stack. -/
def lastMove (s : Front) : StackMove :=
  if s.core.retireValid && s.core.retiredCall then .call
  else if s.core.retireValid && s.core.retiredRet then .ret else .keep

theorem archStack_step : (s.step i).l1i.archStack =
    s.l1i.archStack.move s.lastMove s.core.retireRegValid s.core.retireRegData := by
  have htos : (s.step i).l1i.rArchRsTos = s.l1i.nArchRsTos (s.l1iIn i) := rfl
  have hmem : (s.step i).l1i.rArchReturnStack = s.l1i.nArchReturnStack (s.l1iIn i) := rfl
  rw [L1i.archStack, htos, hmem, L1i.nArchRsTos, L1i.nArchReturnStack, lastMove]
  show ReturnStack.mk (if s.core.retireValid && s.core.retiredCall then _
      else if s.core.retireValid && s.core.retiredRet then _ else _)
    (writeIf (s.core.retireRegValid && s.core.retireValid && s.core.retiredCall) _
      s.core.retireRegData _) = _
  cases s.core.retireValid <;> cases s.core.retiredCall <;> cases s.core.retiredRet <;>
    cases s.core.retireRegValid <;> rfl

/-- The second of a pair is neither a call nor a return. -/
theorem stackMove_of_retireTwo (hr : (s.core.ctl (s.coreIn i)).tRetireTwo = true) :
    s.core.tRobNextHead.stackMove = .keep := by
  obtain ⟨-, -, -, -, hret, hcall⟩ := tRetireTwo_spec hr
  rw [RobEntry.stackMove, hret, hcall]
  rfl

/-- With the retirement on its way the architectural stack is the whole history. -/
def Settled (s : Front) (h : Retired) : Prop :=
  h.stack = s.l1i.archStack.move s.lastMove s.core.retireRegValid s.core.retireRegData

theorem Settled.step (hs : s.Settled h) : (s.step i).Settled (h.next s i) := by
  have hretired : (h.next s i).stack =
      (s.core.retired (s.coreIn i)).foldl (fun r e => r.move e.stackMove e.validDst e.data)
        h.stack := List.foldl_append
  have hlast : (s.step i).lastMove =
      if (s.core.ctl (s.coreIn i)).tRetire then s.core.tRobHead.stackMove else .keep := by
    show (if (s.core.ctl (s.coreIn i)).tRetire &&
        (s.core.tRobHead.isCall && (s.core.ctl (s.coreIn i)).tRetire) then StackMove.call
      else if (s.core.ctl (s.coreIn i)).tRetire &&
        (s.core.tRobHead.isRet && (s.core.ctl (s.coreIn i)).tRetire) then .ret else .keep) = _
    rw [RobEntry.stackMove]
    cases (s.core.ctl (s.coreIn i)).tRetire <;> cases s.core.tRobHead.isCall <;>
      cases s.core.tRobHead.isRet <;> rfl
  have hvalid : (s.step i).core.retireRegValid =
      (s.core.tRobHead.validDst && (s.core.ctl (s.coreIn i)).tRetire) := rfl
  have hdata : (s.step i).core.retireRegData = s.core.tRobHead.data := rfl
  have htwo : ∀ r : ReturnStack,
      (if (s.core.ctl (s.coreIn i)).tRetireTwo then [s.core.tRobNextHead] else []).foldl
        (fun r e => r.move e.stackMove e.validDst e.data) r = r := fun r => by
    cases hr : (s.core.ctl (s.coreIn i)).tRetireTwo
    · rfl
    · show r.move s.core.tRobNextHead.stackMove _ _ = r
      rw [stackMove_of_retireTwo hr]
      rfl
  rw [Settled, hretired, Core.retired, List.foldl_append, htwo, hlast, hvalid, hdata,
    archStack_step, ← hs]
  cases (s.core.ctl (s.coreIn i)).tRetire
  · rfl
  · rw [Bool.and_true]
    rfl

end Front

/-- The front end with the history of what it retired. -/
def returnMachine : Clocked.Machine (Front × Retired) FrontIn where
  reset x := frontMachine.reset x.1 ∧ x.2 = ⟨x.1.l1i.archStack, []⟩
  step x i := (x.1.step i, x.2.next x.1 i)

/-- The lower level answers only while a line is asked for. -/
def AnswersAsked (x : Front × Retired) (i : FrontIn) : Prop :=
  i.memRspValid = true → x.1.l1i.rState = .injectReload

theorem map_stackMove_allocated {s : Front} {i : FrontIn} :
    (s.core.allocated (s.coreIn i)).map RobEntry.stackMove =
      (s.allocatedUops i).map Uop.stackMove := by
  simp only [Core.allocated, Front.allocatedUops]
  cases (s.core.ctl (s.coreIn i)).tAlloc <;> cases (s.core.ctl (s.coreIn i)).tAllocTwo <;> rfl

theorem reach_settled {x : Front × Retired} (h : returnMachine.Reach AnswersAsked x) :
    Front.Settled x.1 x.2 ∧ x.1.l1i.ClassesOk := by
  refine h.invariant (P := fun x : Front × Retired => Front.Settled x.1 x.2 ∧ x.1.l1i.ClassesOk) ?_
    fun x i hx he => ⟨hx.1.step (i := i), hx.2.step (i := x.1.l1iIn i) he⟩
  rintro ⟨⟨c, l⟩, o⟩ ⟨⟨⟨rob, bob, dq, rfl⟩, p, rfl⟩, ho⟩
  have ho' : o = ⟨(L1i.init p).archStack, []⟩ := ho
  subst ho'
  exact ⟨rfl, .init p⟩

/-- **Return-stack recovery.**  The stack loaded by an acknowledged restart is that of
everything retired exactly if the cycle before retired neither a call nor a return; fetch moves
the stack as retirement will exactly if it pushes no `JAL` that links elsewhere. -/
theorem return_stack_recovery {s : Front} {h : Retired}
    (hr : returnMachine.Reach AnswersAsked (s, h)) (i : FrontIn) :
    (s.restarts i = true → ((s.step i).l1i.specStack = h.stack ↔ s.lastMove = .keep)) ∧
      (s.restarts i = false →
        ((s.step i).l1i.specStack = s.l1i.specStack.follow (fun x => (decodeRiscv x).stackMove)
            (s.l1i.pushed (s.l1iIn i)) ↔
          ∀ x ∈ s.l1i.pushed (s.l1iIn i), ¬LinksElsewhere x.data)) ∧
      (s.core.allocated (s.coreIn i)).map RobEntry.stackMove =
        (s.allocatedUops i).map Uop.stackMove := by
  obtain ⟨hs, hc⟩ := reach_settled hr
  refine ⟨fun hk => ?_, fun hk => L1i.specStack_step_iff hc hk, map_stackMove_allocated⟩
  have hload : (s.step i).l1i.specStack = s.l1i.archStack := L1i.specStack_restart hk
  have hstack : h.stack = _ := hs
  rw [hload, hstack, eq_comm, ReturnStack.move_eq_self]

/-! ### A lost call -/

/-- `jalr x1, 0(x2)` and three additions. -/
def callLine : Line := 0x00100193#32 ++ 0x00100193#32 ++ 0x00100113#32 ++ 0x000100e7#32

/-- Port 1 reports the call in entry 0 as mispredicted. -/
def mispredictedCall : CoreIn :=
  { CoreIn.idle with
    tCompleteValid1 := true
    tCompleteBundle1 := ⟨0, true, true, 0x100, false, false, 4⟩ }

/-- Boot, fetch the call, allocate it, complete it; it retires in the last cycle. -/
def callInputs : List FrontIn :=
  [.quiet { CoreIn.idle with l1dFlushComplete := true, l2FlushComplete := true },
   .quiet { CoreIn.idle with resume := true }, .quiet CoreIn.idle, .quiet CoreIn.idle,
   .quiet CoreIn.idle, .quiet CoreIn.idle, ⟨CoreIn.idle, true, callLine⟩, .quiet CoreIn.idle,
   .quiet CoreIn.idle, .quiet CoreIn.idle, .quiet CoreIn.idle, .quiet CoreIn.idle,
   .quiet mispredictedCall, .quiet CoreIn.idle]

/-- Nothing retired yet. -/
def Retired.boot : Retired := ⟨Front.boot.l1i.archStack, []⟩

theorem reach_call : returnMachine.Reach AnswersAsked
    (returnMachine.run (Front.boot, .boot) callInputs) := by
  have hq : ∀ (x : Front × Retired) (c : CoreIn), AnswersAsked x (.quiet c) :=
    fun _ _ h => (Bool.false_ne_true h).elim
  have hboot : returnMachine.Reach AnswersAsked (Front.boot, .boot) := by
    refine Front.reach_boot (M := returnMachine) (fun s => (s, .boot)) (.quiet CoreIn.idle)
      (.reset ⟨⟨⟨_, _, _, rfl⟩, _, rfl⟩, rfl⟩) fun n s hs => ⟨hq _ _, ?_⟩
    refine Prod.ext rfl ?_
    cases hs with
    | initial => cases n <;> rfl
    | initPht k => cases n <;> rfl
    | flush j => cases n <;> rfl
  exact hboot.run ⟨hq _ _, hq _ _, hq _ _, hq _ _, hq _ _, hq _ _, fun _ => rfl, hq _ _, hq _ _,
    hq _ _, hq _ _, hq _ _, hq _ _, hq _ _, trivial⟩

theorem return_stack_recovery_call : ∃ s h, returnMachine.Reach AnswersAsked (s, h) ∧
    s.restarts (.quiet CoreIn.idle) = true ∧ s.lastMove = .call ∧
      ((s.step (.quiet CoreIn.idle)).l1i.specStack = h.stack ↔ s.lastMove = .keep) := by
  have h := reach_call
  refine ⟨_, _, h, ?_, ?_, (return_stack_recovery h (.quiet CoreIn.idle)).1 ?_⟩
  all_goals rfl

/-- The mispredicted call is granted its restart in the cycle in which its retirement arrives,
and the stack loaded does not hold it. -/
theorem call_lost : ¬∀ (s : Front) (h : Retired) (i : FrontIn),
    returnMachine.Reach AnswersAsked (s, h) → s.restarts i = true →
      (s.step i).l1i.specStack = h.stack := by
  intro hall
  have h := congrArg ReturnStack.tos (hall _ _ (.quiet CoreIn.idle) reach_call rfl)
  exact absurd h (by decide)

end Rv32Core
