import Rv32Core.Pipe.Next

/-! # The pipeline with both first-level caches

The wiring of `core_l1d_l1i` without the second-level cache: the core with its execution unit and
its data cache on one side, the core with its instruction cache on the other.  What the host and
the second-level cache present are the inputs.  Every run of the pipeline is a run of each of the
compositions it is made of. -/

namespace Rv32Core

open Clocked

/-- The registers of the four modules. -/
structure Pipe where
  back : Back
  l1i : L1i

/-- The inputs that none of the four drives. -/
structure PipeIn where
  externIrq : Bool
  resume : Bool
  resumePc : Word
  monitorAck : Bool
  l2FlushComplete : Bool
  l1dMemRspValid : Bool
  l1iMemRspValid : Bool
  l1dMemLoadData : Line
  l1iMemLoadData : Line

/-- A cycle in which nothing arrives. -/
def PipeIn.idle : PipeIn where
  externIrq := false
  resume := false
  resumePc := 0
  monitorAck := false
  l2FlushComplete := false
  l1dMemRspValid := false
  l1iMemRspValid := false
  l1dMemLoadData := 0
  l1iMemLoadData := 0

namespace Pipe

variable (s : Pipe) (i : PipeIn)

/-- What the core and its data cache see of the instruction cache. -/
def backIn : BackIn where
  externIrq := i.externIrq
  resume := i.resume
  resumePc := i.resumePc
  monitorAck := i.monitorAck
  restartAck := s.l1i.rRestartAck
  insn := s.l1i.insn
  insnValid := s.l1i.insnValid
  insnTwo := s.l1i.insnTwo
  insnValidTwo := s.l1i.insnValidTwo
  l1iFlushComplete := s.l1i.rFlushComplete
  l2FlushComplete := i.l2FlushComplete
  memRspValid := i.l1dMemRspValid
  memRspLoadData := i.l1dMemLoadData

/-- The core and its instruction cache. -/
def front : Front := ⟨s.back.core, s.l1i⟩

/-- What these two see of the rest. -/
def frontIn : FrontIn := ⟨s.back.coreIn (s.backIn i), i.l1iMemRspValid, i.l1iMemLoadData⟩

/-- The ports of the instruction cache. -/
def l1iIn : L1iIn := s.front.l1iIn (s.frontIn i)

/-- One rising clock edge. -/
def step : Pipe := ⟨s.back.step (s.backIn i), s.l1i.step (s.l1iIn i)⟩

end Pipe

/-- The four modules as a synchronous machine. -/
def pipeMachine : Machine Pipe PipeIn where
  reset s := backMachine.reset s.back ∧ l1iMachine.reset s.l1i
  step := Pipe.step

namespace Pipe

variable {s : Pipe} {i : PipeIn}

theorem front_step : (s.step i).front = s.front.step (s.frontIn i) := rfl

theorem completesFully {p : Back → BackIn → Prop} (h : backMachine.Reach p s.back) :
    CompletesFully (s.frontIn i) :=
  ⟨(Back.completes h).one, (Back.completes h).two⟩

/-! ### What the pipeline has done -/

/-- The results of the back end, the instructions since the latest restart, what the instruction
cache has fetched, and the pc of the next instruction to retire. -/
structure Past where
  results : ResultLog
  since : Since
  fetch : Fetch
  pc : Word

/-- The pc behind the last of a list of retired instructions. -/
def lastPc (p : Word) (l : List RetiredUop) : Word := l.foldl (fun _ y => y.next) p

/-- The instructions retired in a cycle. -/
def retired (s : Pipe) (g : Past) (i : PipeIn) : List RetiredUop :=
  Back.retiredIn g.results s.back (s.backIn i)

/-- The log after a cycle, over the program memory `mem`.  The host sets the pc when it resumes the
core. -/
def watch (mem : Word → Line) (g : Past) (s : Pipe) (i : PipeIn) : Past where
  results := Back.watchResults g.results s.back (s.backIn i)
  since := g.since.next s.front (s.frontIn i)
  fetch := g.fetch.next s.l1i ⟨s.l1iIn i, mem⟩
  pc :=
    if s.back.core.rState = .halt ∧ i.resume = true then i.resumePc
    else lastPc g.pc (s.retired g i)

/-- The log before the first cycle. -/
def Past.start (mem : Word → Line) : Past := ⟨Back.emptyResults, ⟨[], []⟩, ⟨mem, none, none⟩, 0⟩

/-- The pipeline with its log. -/
def pathMachine (mem : Word → Line) : Machine (Pipe × Past) PipeIn :=
  pipeMachine.observed (.start mem) (watch mem)

/-- No architectural fault is taken, registers handed out are free, and fetches are answered from
the program memory. -/
structure Fed (mem : Word → Line) (x : Pipe × Past) (i : PipeIn) : Prop where
  regular : x.1.back.Regular (x.1.backIn i)
  answer : i.l1iMemRspValid = true →
    ∃ a, x.2.fetch.pending x.1.l1i = some a ∧ i.l1iMemLoadData = mem (lineOf a)

variable {mem : Word → Line} {x : Pipe × Past}

/-- What is known of the parts in a run. -/
structure Known (mem : Word → Line) (s : Pipe) (g : Past) : Prop where
  working : s.back.Working g.results
  linked : s.front.Linked g.since
  path : PathInv s.l1i g.fetch
  trail : TrailInv s.l1i g.fetch
  mem_eq : g.fetch.mem = mem

theorem reach_mem (h : (pathMachine mem).Reach (Fed mem) x) : x.2.fetch.mem = mem := by
  cases h with
  | reset h0 =>
      obtain ⟨-, hg⟩ := h0
      rw [hg]
      rfl
  | step _ _ => rfl

theorem reach_fetch (h : (pathMachine mem).Reach (Fed mem) x) :
    fetchMachine.Reach FetchEnv (x.1.l1i, x.2.fetch) :=
  h.map (N := fetchMachine) (fun x => (x.1.l1i, x.2.fetch)) (fun x i => ⟨x.1.l1iIn i, mem⟩)
    (fun x (h0 : (pathMachine mem).reset x) => by
      obtain ⟨⟨-, hl⟩, hg⟩ := h0
      rw [hg]
      exact ⟨hl, rfl, rfl⟩)
    (fun _ _ _ => rfl)
    fun x i hr he => ⟨Front.acks (s := x.1.front), he.answer, fun _ => (reach_mem hr).symm⟩

theorem reach_known (h : (pathMachine mem).Reach (Fed mem) x) : Known mem x.1 x.2 where
  working := Back.reach_working <|
    h.map (N := Back.resultMachine) (fun x => (x.1.back, x.2.results)) (fun x i => x.1.backIn i)
      (fun x (h0 : (pathMachine mem).reset x) => by
        obtain ⟨⟨hb, -⟩, hg⟩ := h0
        rw [hg]
        exact ⟨hb, rfl⟩)
      (fun _ _ _ => rfl) fun _ _ _ he => he.regular
  linked := reach_linked (x := (x.1.front, x.2.since)) <|
    h.map (N := restartMachine) (fun x => (x.1.front, x.2.since)) (fun x i => x.1.frontIn i)
      (fun x (h0 : (pathMachine mem).reset x) => by
        obtain ⟨⟨hb, hl⟩, hg⟩ := h0
        rw [hg]
        exact ⟨⟨hb.1, hl⟩, rfl⟩)
      (fun _ _ _ => congrArg (·, _) front_step) fun x i hr _ => completesFully (p := fun _ _ => True) <|
        hr.map (N := backMachine) (fun x => x.1.back) (fun x i => x.1.backIn i)
          (fun x (h0 : (pathMachine mem).reset x) => h0.1.1) (fun _ _ _ => rfl)
          fun _ _ _ _ => trivial
  path := reach_pathInv (reach_fetch h)
  trail := reach_trailInv <|
    h.map (N := fetchMachine) (fun x => (x.1.l1i, x.2.fetch)) (fun x i => ⟨x.1.l1iIn i, mem⟩)
      (fun x (h0 : (pathMachine mem).reset x) => by
        obtain ⟨⟨-, hl⟩, hg⟩ := h0
        rw [hg]
        exact ⟨hl, rfl, rfl⟩)
      (fun _ _ _ => rfl)
      fun x i hr he => ⟨Front.acks (s := x.1.front), fun hm => by
        obtain ⟨a, ha, -⟩ := he.answer hm
        rw [show x.2.fetch.pending x.1.l1i = _ from (reach_pathInv (reach_fetch hr)).asked] at ha
        by_contra hs
        rw [if_neg hs] at ha
        cases ha⟩
  mem_eq := reach_mem h

end Pipe

/-! ### Start-up

The data cache has initialised after 4097 cycles and then rests while the instruction cache goes on
for 65536 more, the core waits in FLUSH_FOR_HALT for both, and the execution unit counts cycles.
From zeroed memories this ends in a state that can be written down (`Pipe.boot`); concrete runs of
the pipeline start there. -/

/-! #### The modules at rest -/

/-- The data cache initialised, with nothing asked of it. -/
def L1d.settled (f : Bool) (r : SetIdx) : L1d :=
  { init L1dPowerUp.zero with
    rState := .active
    rFlushComplete := f
    rrCacheIdx := r
    memqEmpty := false }

/-- A cycle in which the core is idle, whatever is at the port for requests. -/
def L1d.quietIn (q : MemReq) : L1dIn := { L1dIn.idle with retiredRobPtrTwo := 1, coreMemReq := q }

theorem L1d.settled_ctl (f : Bool) (r : SetIdx) (q : MemReq) :
    (settled f r).ctl (quietIn q) = (settled f r).dfltCtl (quietIn q) := rfl

theorem L1d.step_settled (f : Bool) (r : SetIdx) {q : MemReq} (hq : q.unaligned = false) :
    (settled f r).step (quietIn q) = settled false 0 := by
  have h1 : anyMq ((settled f r).wHitBusyAddrs (quietIn q)) = false := anyMq_false fun _ => rfl
  have h2 : (settled f r).nDcValid (quietIn q) = fun _ => false := rfl
  have h3 : (settled f r).nDcDirty (quietIn q) = fun _ => false := rfl
  have h4 : anyMq ((settled f r).wHitBusyAddrs2 (quietIn q)) = false := anyMq_false fun _ => rfl
  have h5 : anyMq ((settled f r).wHitBusyWordAddrs2 (quietIn q)) = false :=
    anyMq_false fun _ => rfl
  have h6 : (anyMq (settled f r).wUnalignedInMq || (quietIn q).coreMemReq.unaligned) = false := by
    rw [show anyMq (settled f r).wUnalignedInMq = false from anyMq_false fun _ => rfl]
    exact hq
  simp only [step, nGraduated, nRobInflight, nNInflight, settled_ctl, h1, h2, h3, h4, h5, h6]
  rfl

/-- The core when the data cache has reported its flush. -/
def Core.resting (b : Bool) : Core :=
  { Core.zeroed with rBankSel := b, retiredRobPtrTwo := 1, rL1dFlushComplete := true }

namespace Back

/-- The back end while it waits for the instruction cache. -/
def resting (n : ℕ) (b : Bool) : Back :=
  ⟨Core.resting b, Exec.asleep (n + 1), L1d.settled false 0⟩

theorem step_resting (n : ℕ) (b : Bool) :
    (resting n b).step BackIn.idle = resting (n + 1) (!b) := by
  have hl : (resting n b).l1d.step ((resting n b).l1dIn BackIn.idle) = L1d.settled false 0 :=
    L1d.step_settled false 0 rfl
  have he : (resting n b).exec.step ((resting n b).execIn BackIn.idle) = Exec.asleep (n + 2) :=
    Exec.asleep_step (n + 1) _ _
  have hc : (resting n b).core.step ((resting n b).coreIn BackIn.idle) = Core.resting (!b) := rfl
  rw [Back.step, hl, he, hc]
  rfl

theorem step_boot : boot.step BackIn.idle = resting 4097 false := by
  have hl : boot.l1d.step (boot.l1dIn BackIn.idle) = L1d.settled false 0 :=
    L1d.step_settled true 4095 rfl
  have he : boot.exec.step (boot.execIn BackIn.idle) = Exec.asleep 4098 :=
    Exec.asleep_step 4097 _ _
  have hc : boot.core.step (boot.coreIn BackIn.idle) = Core.resting false := rfl
  rw [Back.step, hl, he, hc]
  rfl

/-- The back end in the `n`-th cycle, with nothing at its ports. -/
def waking : ℕ → Back
  | 0 => start
  | n + 1 => (waking n).step BackIn.idle

/-- The states of the back end while it starts up. -/
inductive Waking : Back → Prop
  | start : Waking start
  | asleep (n : ℕ) (a b : SetIdx) : Waking (asleep n a b)
  | boot : Waking boot
  | resting (n : ℕ) (b : Bool) : Waking (resting n b)

theorem waking_asleep {k : ℕ} (hk : k ≤ 4095) :
    ∃ b, waking (k + 1) = asleep (k + 1) (BitVec.ofNat 12 k) b := by
  induction k with
  | zero => exact ⟨0, step_start⟩
  | succ k ih =>
      obtain ⟨b, hb⟩ := ih (by omega)
      refine ⟨BitVec.ofNat 12 k, ?_⟩
      rw [waking, hb, step_asleep, L1d.walk_next hk b]
      rfl

theorem waking_boot : waking 4097 = boot := by
  obtain ⟨b, hb⟩ := waking_asleep (le_refl 4095)
  have hl : (L1d.walking (BitVec.ofNat 12 4095) b).step L1dIn.idle = L1d.ready :=
    L1d.step_walking_last b
  have hc : Core.asleep 4097 = Front.boot.core := Front.asleep_odd 2048
  rw [show 4097 = 4095 + 1 + 1 from rfl, waking, hb, step_asleep, hl, hc]
  rfl

theorem waking_resting (k : ℕ) : waking (k + 4098) = resting (k + 4097) (k % 2 = 1) := by
  induction k with
  | zero => exact (congrArg (fun s => Back.step s BackIn.idle) waking_boot).trans step_boot
  | succ k ih =>
      rw [show k + 1 + 4098 = k + 4098 + 1 by omega, waking, ih, step_resting]
      congr 1
      have h := Nat.mod_two_eq_zero_or_one k
      obtain h | h := h <;> simp [Nat.add_mod, h]

theorem waking_mem (n : ℕ) : Waking (waking n) := by
  by_cases h0 : n = 0
  · rw [h0]
    exact .start
  by_cases h1 : n ≤ 4096
  · obtain ⟨k, rfl⟩ : ∃ k, n = k + 1 := ⟨n - 1, by omega⟩
    obtain ⟨b, hb⟩ := waking_asleep (k := k) (by omega)
    rw [hb]
    exact .asleep ..
  by_cases h2 : n = 4097
  · rw [h2, waking_boot]
    exact .boot
  · obtain ⟨k, rfl⟩ : ∃ k, n = k + 4098 := ⟨n - 4098, by omega⟩
    rw [waking_resting]
    exact .resting ..

/-! #### The logs -/

variable {s : Back}

theorem Waking.quiet (h : Waking s) :
    s.core.rState = .flushForHalt ∧ (s.l1dCtl BackIn.idle).nCoreMemRspValid = false := by
  cases h with
  | start => exact ⟨rfl, rfl⟩
  | asleep n a b =>
      obtain ⟨hv, -⟩ := L1d.walking_quiet a b ((Back.asleep n a b).l1dIn BackIn.idle)
      exact ⟨by cases n <;> rfl, hv⟩
  | boot => exact ⟨rfl, rfl⟩
  | resting n b => exact ⟨rfl, rfl⟩

theorem Waking.allocates (h : Waking s) :
    (s.core.ctl (s.coreIn BackIn.idle)).tAlloc = false ∧
      (s.core.ctl (s.coreIn BackIn.idle)).tAllocTwo = false := by
  rw [Core.ctl_tAlloc, Core.ctl_tAllocTwo, h.quiet.1]
  exact ⟨rfl, rfl⟩

theorem Waking.regular (h : Waking s) : s.Regular BackIn.idle := by
  obtain ⟨ha, ha2⟩ := h.allocates
  refine ⟨by rw [h.quiet.1]; decide, fun h1 => ?_, fun h2 => ?_⟩
  · exact absurd (ha.symm.trans h1) Bool.false_ne_true
  · exact absurd (ha2.symm.trans h2) Bool.false_ne_true

theorem Waking.flow (h : Waking s) :
    watchFlow (startFlow s) s BackIn.idle = startFlow (s.step BackIn.idle) := by
  have hslots : Core.watchSlots emptyFlow.slots s.core (s.coreIn BackIn.idle) =
      emptyFlow.slots := by
    rw [Core.watchSlots, h.allocates.1, h.allocates.2]
    rfl
  cases h with
  | start => rfl
  | asleep n a b => exact (asleep_regular n a b).2
  | boot =>
      rw [step_boot]
      exact congrArg₂ FlowLog.mk hslots (asleep_operands 4097 rfl rfl rfl rfl rfl _)
  | resting n b =>
      rw [step_resting]
      exact congrArg₂ FlowLog.mk hslots (asleep_operands (n + 1) rfl rfl rfl rfl rfl _)

theorem Waking.results (h : Waking s) :
    watchResults (startResults s) s BackIn.idle = startResults (s.step BackIn.idle) := by
  have hans : writeIf (s.l1dCtl BackIn.idle).nCoreMemRspValid
      (s.l1dCtl BackIn.idle).nCoreMemRsp.robPtr (s.l1dCtl BackIn.idle).nCoreMemRsp
      emptyResults.answers = emptyResults.answers := by
    rw [h.quiet.2]
    rfl
  exact congrArg₂ ResultLog.mk h.flow hans

end Back

namespace Pipe

variable {mem : Word → Line} {b : Back} {l : L1i}

/-- The log of a pipeline that starts up. -/
def startPast (mem : Word → Line) (b : Back) : Past :=
  { Past.start mem with results := Back.startResults b }

/-- The pipeline when the instruction cache reports its first flush. -/
def boot : Pipe := ⟨Back.resting 69632 true, L1i.ready⟩

theorem starting_ports (hb : Back.Waking b) (hl : L1i.Starting l) :
    (Pipe.mk b l).backIn .idle = BackIn.idle ∧ (Pipe.mk b l).l1iIn .idle = L1iIn.idle := by
  constructor
  · cases hl <;> rfl
  · cases hb with
    | start => cases hl <;> rfl
    | asleep n a b => cases n <;> cases hl <;> rfl
    | boot => cases hl <;> rfl
    | resting n b => cases hl <;> rfl

theorem starting_step (hb : Back.Waking b) (hl : L1i.Starting l) :
    (Pipe.mk b l).step .idle = ⟨b.step BackIn.idle, l.step L1iIn.idle⟩ := by
  rw [step, (starting_ports hb hl).1, (starting_ports hb hl).2]

theorem starting_watch (hb : Back.Waking b) (hl : L1i.Starting l) :
    watch mem (startPast mem b) ⟨b, l⟩ .idle = startPast mem (b.step BackIn.idle) := by
  obtain ⟨hback, hl1i⟩ := starting_ports hb hl
  have hack : (l.ctl L1iIn.idle).nRestartAck = false ∧ (l.ctl L1iIn.idle).tClearFq = false ∧
      l.pushed L1iIn.idle = [] ∧ l.rMemReqValid = false := by
    cases hl <;> exact ⟨rfl, rfl, rfl, rfl⟩
  have hret : (b.coreCtl BackIn.idle).tRetire = false ∧
      (b.coreCtl BackIn.idle).tRetireTwo = false := by
    rw [Back.coreCtl, Core.ctl_tRetire, Core.ctl_tRetireTwo, hb.quiet.1]
    exact ⟨rfl, rfl⟩
  have hresults : Back.watchResults (Back.startResults b) b ((Pipe.mk b l).backIn .idle) =
      Back.startResults (b.step BackIn.idle) := by
    rw [hback]
    exact hb.results
  have hsince : Since.next ⟨[], []⟩ (Pipe.mk b l).front ((Pipe.mk b l).frontIn .idle) =
      ⟨[], []⟩ := by
    have hk : (Pipe.mk b l).front.restarts ((Pipe.mk b l).frontIn .idle) = false := by
      show (l.ctl ((Pipe.mk b l).l1iIn .idle)).nRestartAck = false
      rw [hl1i]
      exact hack.1
    rw [Front.next_of_none hk]
    show Since.mk ([] ++ l.pushed ((Pipe.mk b l).l1iIn .idle))
      ([] ++ b.core.allocatedUops (b.coreIn ((Pipe.mk b l).backIn .idle))) = _
    rw [hl1i, hack.2.2.1, hback, Core.allocatedUops, hb.allocates.1]
    rfl
  have hfetch : Fetch.next ⟨mem, none, none⟩ l ⟨(Pipe.mk b l).l1iIn .idle, mem⟩ =
      ⟨mem, none, none⟩ := by
    rw [hl1i]
    simp [Fetch.next, Fetch.pending, hack, show L1iIn.idle.memRspValid = false from rfl]
  have hpc : lastPc 0 ((Pipe.mk b l).retired (startPast mem b) .idle) = 0 := by
    rw [retired, hback, Back.retiredIn, hret.1, hret.2]
    rfl
  have hhalt : ¬(b.core.rState = .halt ∧ PipeIn.idle.resume = true) := fun h => by
    rw [hb.quiet.1] at h
    cases h.1
  have hmk : ∀ {r r' : ResultLog} {o o' : Since} {f f' : Fetch} {p p' : Word}, r = r' → o = o' →
      f = f' → p = p' → Past.mk r o f p = ⟨r', o', f', p'⟩ := by
    rintro _ _ _ _ _ _ _ _ rfl rfl rfl rfl
    rfl
  exact hmk hresults hsince hfetch ((if_neg hhalt).trans hpc)

/-- **Start-up ends in `boot`.** -/
theorem reach_boot : (pathMachine mem).Reach (Fed mem) (boot, startPast mem boot.back) := by
  have h0 : (pathMachine mem).Reach (Fed mem)
      (⟨Back.waking 0, L1i.init L1iPowerUp.cleared⟩, startPast mem (Back.waking 0)) :=
    .reset ⟨⟨Back.reset_start, _, rfl⟩, rfl⟩
  have h := L1i.reach_ready (M := pathMachine mem)
    (fun n l => (Pipe.mk (Back.waking n) l, startPast mem (Back.waking n))) PipeIn.idle h0
    fun n l hl => ⟨⟨?_, fun h => by cases h⟩, ?_⟩
  · rw [Back.waking_resting 65535] at h
    exact h
  · rw [(starting_ports (Back.waking_mem n) hl).1]
    exact (Back.waking_mem n).regular
  · exact Prod.ext (starting_step (Back.waking_mem n) hl) (starting_watch (Back.waking_mem n) hl)

end Pipe

end Rv32Core
