import Rv32Core.Pipe.Next
import Rv32Core.Pipe.Model

/-! # Retirement follows the program

The instructions retired from a resume on are a path of the program in memory: the first is at the
pc the host resumed with, each of the others is where the one before it goes, and each is the word
of memory at its pc.

What carries this through restarts is where the machine stands (`Stage`).  While it follows the
program, the uops in the ROB continue the path, and what was fetched behind them continues it along
the predictions; a wrong prediction is a fault of the branch, and nothing behind the branch retires.
After a serializing uop fetch begins anew, at the pc behind it, before the uop retires.  While a
restart is asked for, its pc is that of the next instruction to retire. -/

namespace Rv32Core

open Clocked RingBuffer Walk Rv32Core.Core

/-! ### The pc of a restart -/

namespace Core

variable {s : Core} {i : CoreIn}

/-- A drain begins with an interrupt, at the head of the ROB, or with the retirement of a
mispredicted branch, at its target. -/
theorem active_redirect (hs : s.rState = .active) (hn : (s.ctl i).nState = .drain) :
    (s.tRobEmpty = false ∧ (s.ctl i).tRetire = false ∧ (s.ctl i).nRestartPc = s.tRobHead.pc) ∨
      ((s.ctl i).tRetire = true ∧ (s.ctl i).tRetireTwo = false ∧ s.tRobHead.faulted = true ∧
        s.tArchFault = false ∧ (s.ctl i).nRestartPc = s.tRobHead.targetPc) := by
  have hctl := ctl_of_active (i := i) hs
  unfold activeCtl at hctl
  by_cases h1 : (s.rExternIrq && !s.tRobEmpty) = true
  · rw [if_pos h1] at hctl
    rw [Bool.and_eq_true, Bool.not_eq_true'] at h1
    exact .inl ⟨h1.2, by rw [hctl]; rfl, by rw [hctl]; rfl⟩
  rw [if_neg h1] at hctl
  by_cases h2 : s.tCanRetireRobHead = true
  · rw [if_pos h2] at hctl
    have hc : s.tRobHeadComplete = true := by
      rw [tCanRetireRobHead, Bool.and_eq_true] at h2
      exact h2.1
    unfold canRetireCtl at hctl
    by_cases hf : s.tRobHead.faulted = true
    · rw [if_pos hf] at hctl
      cases ha : s.tArchFault
      · refine .inr ⟨?_, ?_, hf, rfl, ?_⟩ <;> rw [hctl]
        · simp [hc, ha]
        · simp [hf]
        · rw [faultCtl, ha]
      · rw [hctl] at hn
        rw [faultCtl, ha] at hn
        cases hn
    · rw [if_neg hf] at hctl
      rw [hctl] at hn
      unfold retireCtl at hn
      dsimp only at hn
      split_ifs at hn <;> first | cases hn | exact absurd (hs.symm.trans hn) (by decide)
  · rw [if_neg h2] at hctl
    rw [hctl] at hn
    unfold noRetireCtl at hn
    dsimp only at hn
    split_ifs at hn <;> first | cases hn | exact absurd (hs.symm.trans hn) (by decide)

/-- A head that can retire does so, and without a fault, unless the core drains or faults. -/
theorem active_goes (hs : s.rState = .active) (hd : (s.ctl i).nState ≠ .drain)
    (ha : (s.ctl i).nState ≠ .archFault) (hc : s.tCanRetireRobHead = true) :
    (s.ctl i).tRetire = true ∧ s.tRobHead.faulted = false := by
  have hctl := ctl_of_active (i := i) hs
  unfold activeCtl at hctl
  by_cases h1 : (s.rExternIrq && !s.tRobEmpty) = true
  · rw [if_pos h1] at hctl
    exact absurd (by rw [hctl]; rfl) hd
  rw [if_neg h1, if_pos hc] at hctl
  rw [tCanRetireRobHead, Bool.and_eq_true] at hc
  by_cases hf : s.tRobHead.faulted = true
  · unfold canRetireCtl at hctl
    rw [if_pos hf] at hctl
    obtain ⟨hfault, hdrain⟩ := faultCtl_move (s := s) (i := i)
    cases hb : s.tArchFault
    · exact absurd (by rw [hctl]; exact (hdrain hb).1) hd
    · exact absurd (by rw [hctl]; exact (hfault hb).1) ha
  · rw [Bool.not_eq_true] at hf
    refine ⟨?_, hf⟩
    rw [hctl, canRetireCtl, tArchFault, hf, hc.1]
    rfl

theorem active_retires (hs : s.rState = .active) (hr : (s.ctl i).tRetire = true) :
    s.tCanRetireRobHead = true := by
  rw [ctl_tRetire, hs] at hr
  dsimp only at hr
  rw [activeCtl_tRetire, Bool.and_eq_true, Bool.and_eq_true] at hr
  exact hr.1.2

/-- Behind a serializing uop the core goes on where its entry says, behind a monitor call at the
next word. -/
theorem waits_restartPc (hs : Waits s.rState) (hc : s.tRobHeadComplete = true) :
    s.rState ≠ .waitForMonitor ∧ (s.ctl i).nRestartPc = s.tRobHead.targetPc ∨
      (s.ctl i).nRestartPc = s.tRobHead.pc + 4 := by
  obtain hs | hs := hs
  · refine .inl ⟨by rw [hs]; decide, ?_⟩
    rw [ctl, hs]
    show (s.waitForSerializeAndRestartCtl i).nRestartPc = _
    rw [waitForSerializeAndRestartCtl, hc]
    rfl
  · refine .inr ?_
    rw [ctl, hs]
    show (s.waitForMonitorCtl i).nRestartPc = _
    rw [waitForMonitorCtl, hc]
    rfl

theorem drains_restartPc (hs : Drains s.rState ∨ s.rState = .haltWaitForRestart) :
    (s.ctl i).nRestartPc = s.rRestartPc := by
  obtain (hs | hs) | hs := hs
  · simp only [ctl, hs, drainCtl]
    split_ifs <;> rfl
  · simp only [ctl, hs, ratCtl]
    split_ifs <;> rfl
  · simp only [ctl, hs, haltWaitForRestartCtl]
    rfl

theorem halt_resumes (hs : s.rState = .halt) (hn : (s.ctl i).nState = .haltWaitForRestart) :
    i.resume = true ∧ (s.ctl i).nRestartPc = i.resumePc := by
  have hctl : s.ctl i = s.haltCtl i := by
    unfold ctl
    rw [hs]
  rw [hctl, haltCtl] at hn ⊢
  cases hr : i.resume
  · rw [hr] at hn
    exact absurd (hs.symm.trans hn) (by decide)
  · exact ⟨rfl, rfl⟩

theorem nLeaving_eq (hw : s.rState ≠ .writeCause) : s.nLeaving i =
    if (s.ctl i).tRetire then (if (s.ctl i).tRetireTwo then 2 else 1) else 0 := by
  have hb : (s.ctl i).tBumpRobHead = true → (s.ctl i).tRetire = true := fun hb => by
    rw [ctl_tBumpRobHead] at hb
    rw [ctl_tRetire]
    cases hs : s.rState <;> simp only [hs] at hb ⊢ <;>
      first | exact absurd hb Bool.false_ne_true | exact absurd hs hw | skip
    rw [activeCtl_tBumpRobHead] at hb
    rw [activeCtl_tRetire]
    simp only [Bool.and_eq_true] at hb ⊢
    exact ⟨hb.1.1, hb.2⟩
  unfold nLeaving
  cases hr : (s.ctl i).tRetire
  · rw [Bool.eq_false_iff.mpr fun h => Bool.false_ne_true (hr.symm.trans (hb h))]
    rfl
  · rfl

end Core

/-! ### Where the machine stands -/

namespace Pipe

variable {mem : Word → Line} {s : Pipe} {g : Past} {i : PipeIn}

/-- The decoded uops in the ROB, oldest first. -/
def uops (s : Pipe) (g : Past) : List Uop := Core.uops g.results.flow.slots s.back.core

/-- The uop was decoded from the word of memory at its pc, fetched with a prediction that the
predecoder makes. -/
def Loaded (mem : Word → Line) (u : Uop) : Prop :=
  ∃ f, u = decodeRiscv f ∧ f.data = wordAt mem f.pc ∧ f.Predicted

/-- The machine follows the program: of the uops allocated in the epoch `e` the first `n` have
retired and the others are in the ROB, and the instructions of the first `n` lead to the pc of the
next. -/
structure Follows (s : Pipe) (g : Past) (e : Epoch) (n : ℕ) : Prop where
  epoch : g.fetch.epoch = some e
  pushed : e.pushed = g.since.pushed
  le : n ≤ g.since.allocated.length
  rob : g.since.allocated.drop n = s.uops g
  walk : IsWalk InsnFetch.pc InsnFetch.nextPc e.restartPc (e.pushed.take n) g.pc

/-- Fetch begins anew behind a serializing uop, which is still to retire, or has retired. -/
def Turns (mem : Word → Line) (s : Pipe) (g : Past) : Prop :=
  (s.uops g = [] ∧ s.back.core.rRestartPc = g.pc) ∨
    ∃ u, s.uops g = [u] ∧ s.back.core.tRobHeadComplete = true ∧ u.serializingOp = true ∧
      Loaded mem u ∧ u.pc = g.pc ∧ (s.back.core.rRestartPc = u.pc + 4 ∨
        u.Stops ∧ s.back.core.rState ≠ .waitForMonitor)

/-- A restart at the pc of the next instruction was granted, and nothing was allocated since. -/
structure Granted (g : Past) (e : Epoch) : Prop where
  epoch : g.fetch.epoch = some e
  pushed : e.pushed = g.since.pushed
  none : g.since.allocated = []
  pc : e.restartPc = g.pc

/-- The core executes. -/
def Executing (c : CoreState) : Prop := c = .active ∨ Serial c ∨ Waits c

/-- The core waits for a restart and executes nothing. -/
def Restarting (c : CoreState) : Prop := Drains c ∨ c = .haltWaitForRestart

/-- A restart is asked for and not granted. -/
def restartPending (s : Pipe) : Bool := s.back.core.rRestartValid || s.l1i.rRestartReq

/-- What holds where the machine stands. -/
structure Steered (mem : Word → Line) (s : Pipe) (g : Past) : Prop where
  follows : Executing s.back.core.rState → s.back.core.rRestartValid = false →
    ∃ e n, Follows s g e n
  turns : Executing s.back.core.rState → s.back.core.rRestartValid = true → Turns mem s g
  asks : Restarting s.back.core.rState → s.restartPending = true →
    s.back.core.rRestartPc = g.pc
  granted : Restarting s.back.core.rState → s.restartPending = false → ∃ e, Granted g e
  empty : Halted s.back.core.rState → s.uops g = []

/-! ### What a cycle retires -/

theorem Known.retired_first (k : Known mem s g) :
    (s.retired g i).map RetiredUop.uop <+: s.uops g := by
  have hp := k.working.flowing.inv.occ.ptrs
  unfold retired Back.retiredIn uops
  cases h1 : (s.back.coreCtl (s.backIn i)).tRetire
  · have h2 : (s.back.coreCtl (s.backIn i)).tRetireTwo = false := Bool.eq_false_iff.mpr fun h2 => by
      rw [show (s.back.coreCtl (s.backIn i)).tRetire = true from (tRetireTwo_tRetire h2).1] at h1
      cases h1
    rw [h2]
    exact List.nil_prefix
  · have he := (k.working.leaving h1).2.1
    cases h2 : (s.back.coreCtl (s.backIn i)).tRetireTwo
    · rw [Core.uops_cons he]
      exact ⟨_, rfl⟩
    · rw [Core.uops_cons_two hp he (tRetireTwo_tRetire h2).2]
      exact ⟨_, rfl⟩

theorem Known.one_retired (k : Known mem s g) {u : Uop} (hu : s.uops g = [u])
    (hret : (s.back.coreCtl (s.backIn i)).tRetire = true) :
    ∃ y, s.retired g i = [y] ∧ y.uop = u := by
  have hpre := k.retired_first (i := i)
  have hpos : s.retired g i ≠ [] := by
    rw [retired, Back.retiredIn, hret]
    simp
  have hlen := hpre.length_le
  rw [List.length_map, hu] at hlen
  obtain ⟨y, hy⟩ := List.length_eq_one_iff.mp (le_antisymm hlen (List.length_pos_iff.mpr hpos))
  rw [hy, hu] at hpre
  exact ⟨y, hy, (List.cons_prefix_cons.mp hpre).1⟩

theorem Known.length_retired (k : Known mem s g) :
    (s.retired g i).length = s.back.core.nLeaving (s.back.coreIn (s.backIn i)) := by
  have hw := k.working.flowing.faultFree.choose_spec.noWrite.2
  rw [nLeaving_eq hw]
  unfold retired Back.retiredIn
  change _ = if (s.back.coreCtl (s.backIn i)).tRetire then
    (if (s.back.coreCtl (s.backIn i)).tRetireTwo then 2 else 1) else 0
  cases h1 : (s.back.coreCtl (s.backIn i)).tRetire
  · have h2 : (s.back.coreCtl (s.backIn i)).tRetireTwo = false := Bool.eq_false_iff.mpr fun h2 => by
      rw [show (s.back.coreCtl (s.backIn i)).tRetire = true from (tRetireTwo_tRetire h2).1] at h1
      cases h1
    rw [h2]
    rfl
  · cases (s.back.coreCtl (s.backIn i)).tRetireTwo <;> rfl

theorem finished_runs {b : Back} {l : FlowLog} {x : Slot} {c : MemRsp} {o : Effect}
    (h : b.Finished l x c o) : ∃ u v, x.decoded.Runs u v c o := by
  cases h with
  | folded hf => exact ⟨0, 0, .folded hf⟩
  | executed u v _ hr _ _ => exact ⟨u, v, hr⟩

theorem Known.retired_runs (k : Known mem s g) {y : RetiredUop} (hy : y ∈ s.retired g i) :
    ∃ a b, y.uop.Runs a b y.answer y.effect := by
  have hdone := fun h1 => (k.working.results (k.working.leaving (i := s.backIn i) h1).1).done
  rw [retired, Back.retiredIn, List.mem_append] at hy
  obtain hy | hy := hy <;> split_ifs at hy with h1
  · obtain rfl := List.mem_singleton.mp hy
    exact finished_runs (hdone h1 _ (k.working.head_inRob h1) (k.working.leaving h1).2.2)
  · cases hy
  · obtain rfl := List.mem_singleton.mp hy
    obtain ⟨hin, hc⟩ := k.working.next_inRob h1
    exact finished_runs (hdone (tRetireTwo_tRetire h1).1 _ hin hc)
  · cases hy

theorem retired_faulted {y : RetiredUop} (hy : y ∈ s.retired g i)
    (hf : s.back.core.tRobHead.faulted = false) : y.effect.faulted = false := by
  rw [retired, Back.retiredIn, List.mem_append] at hy
  obtain hy | hy := hy <;> split_ifs at hy with h1
  · obtain rfl := List.mem_singleton.mp hy
    exact hf
  · cases hy
  · obtain rfl := List.mem_singleton.mp hy
    exact (tRetireTwo_spec (i := s.back.coreIn (s.backIn i)) h1).2.2.2.1
  · cases hy

/-- What retires in ACTIVE without a fault goes where fetch went. -/
theorem retired_walk {p q : Word} {l : List RetiredUop} {fs : List InsnFetch}
    (hw : IsWalk InsnFetch.pc InsnFetch.nextPc p fs q)
    (hl : l.map RetiredUop.uop <+: fs.map decodeRiscv) (hx : ∀ f ∈ fs, f.Predicted)
    (hr : ∀ y ∈ l, ∃ a b, y.uop.Runs a b y.answer y.effect)
    (hf : ∀ y ∈ l, y.effect.faulted = false) :
    IsWalk RetiredUop.pc RetiredUop.next p l (lastPc p l) ∧
      IsWalk InsnFetch.pc InsnFetch.nextPc p (fs.take l.length) (lastPc p l) := by
  induction l generalizing p fs with
  | nil => exact ⟨rfl, rfl⟩
  | cons y l ih =>
      cases fs with
      | nil => exact absurd hl (by simp)
      | cons f fs =>
          rw [List.map_cons, List.map_cons, List.cons_prefix_cons] at hl
          obtain ⟨hy, hl⟩ := hl
          obtain ⟨a, b, hrun⟩ := hr y (List.mem_cons_self ..)
          rw [hy] at hrun
          have hnext : y.next = f.nextPc := by
            rw [RetiredUop.next, hy]
            exact hrun.next_eq (hx f (List.mem_cons_self ..)) (hf y (List.mem_cons_self ..))
          have hrest := ih (p := f.nextPc) hw.2 hl (fun g hg => hx g (List.mem_cons_of_mem _ hg))
            (fun z hz => hr z (List.mem_cons_of_mem _ hz))
            fun z hz => hf z (List.mem_cons_of_mem _ hz)
          have hlast : lastPc p (y :: l) = lastPc f.nextPc l := by
            rw [← hnext]
            rfl
          rw [hlast]
          refine ⟨⟨?_, hnext ▸ hrest.1⟩, hw.1, hrest.2⟩
          rw [RetiredUop.pc, hy, decodeRiscv_pc]
          exact hw.1

/-! ### The logs in one cycle -/

theorem watch_since_none (hk : s.front.restarts (s.frontIn i) = false) :
    (watch mem g s i).since = ⟨g.since.pushed ++ s.l1i.pushed (s.l1iIn i),
      g.since.allocated ++ s.back.core.allocatedUops (s.back.coreIn (s.backIn i))⟩ :=
  Front.next_of_none hk

theorem watch_epoch_none (hf : s.front.NoFlush) (hk : s.front.restarts (s.frontIn i) = false)
    {e : Epoch} (he : g.fetch.epoch = some e) : (watch mem g s i).fetch.epoch =
      some ⟨e.restartPc, e.groups ++ [s.l1i.pushed (s.l1iIn i)],
        e.popped ++ s.l1i.popped (s.l1iIn i)⟩ := by
  have hclr : (s.l1i.ctl (s.l1iIn i)).tClearFq = false := (hf.tClearFq (i := s.frontIn i)).trans hk
  have hack : (s.l1i.ctl (s.l1iIn i)).nRestartAck = false := hk
  show (g.fetch.next s.l1i ⟨s.l1iIn i, mem⟩).epoch = _
  rw [Fetch.next, hack, hclr, he]
  rfl

theorem pushed_snoc (p : Word) (l : List (List InsnFetch)) (x y : List InsnFetch) :
    Epoch.pushed ⟨p, l ++ [x], y⟩ = l.flatten ++ x := by
  rw [Epoch.pushed, List.flatten_append, List.flatten_singleton]

theorem watch_of_restarts (hk : s.front.restarts (s.frontIn i) = true) :
    (watch mem g s i).fetch.epoch = some ⟨s.back.core.rRestartPc, [], []⟩ ∧
      (watch mem g s i).since = ⟨[], []⟩ :=
  ⟨if_pos hk, Front.next_of_restarts hk⟩

theorem watch_pc (hh : s.back.core.rState ≠ .halt) :
    (watch mem g s i).pc = lastPc g.pc (s.retired g i) := if_neg fun h => hh h.1

theorem retired_none (h : (s.back.coreCtl (s.backIn i)).tRetire = false) : s.retired g i = [] := by
  have h2 : (s.back.coreCtl (s.backIn i)).tRetireTwo = false := Bool.eq_false_iff.mpr fun h2 => by
    rw [show (s.back.coreCtl (s.backIn i)).tRetire = true from (tRetireTwo_tRetire h2).1] at h
    cases h
  rw [retired, Back.retiredIn, h, h2]
  rfl

theorem Known.uops_step (k : Known mem s g) (hr : s.back.core.rState ≠ .rat) :
    (s.step i).uops (watch mem g s i) = (s.uops g).drop (s.retired g i).length ++
      s.back.core.allocatedUops (s.back.coreIn (s.backIn i)) := by
  have ho := k.working.flowing.inv.occ
  rw [k.length_retired]
  exact Core.uops_step ho.ptrs hr ho.nLeaving_le

theorem uops_rat (hr : s.back.core.rState = .rat) : (s.step i).uops (watch mem g s i) = [] :=
  Core.uops_eq_nil.mpr (robCount_rat hr)

/-! ### Following the program -/

variable {e : Epoch} {n : ℕ}

/-- The instructions fetched behind those retired lead on from the pc of the next. -/
theorem Follows.ahead (h : Follows s g e n) (k : Known mem s g) :
    (∃ q, IsWalk InsnFetch.pc InsnFetch.nextPc g.pc (e.pushed.drop n) q) ∧
      s.uops g <+: (e.pushed.drop n).map decodeRiscv ∧
      ∀ f ∈ e.pushed.drop n, f.data = wordAt mem f.pc ∧ f.Predicted := by
  have hwalk := (k.path.epoch e h.epoch).walk
  rw [← List.take_append_drop n e.pushed] at hwalk
  obtain ⟨r, h1, h2⟩ := hwalk.split
  rw [h1.unique h.walk] at h2
  refine ⟨⟨_, h2⟩, ?_, fun f hf => ?_⟩
  · have hpre := k.linked.ordered
    rw [Since.Ordered, ← h.pushed] at hpre
    rw [← h.rob, List.map_drop]
    exact hpre.drop n
  · have hm := List.mem_of_mem_drop hf
    rw [← k.mem_eq]
    exact ⟨(k.path.epoch e h.epoch).words f hm, (k.trail.epoch e h.epoch).predicted f hm⟩

theorem Follows.loaded (h : Follows s g e n) (k : Known mem s g) {u : Uop} (hu : u ∈ s.uops g) :
    Loaded mem u := by
  obtain ⟨-, hpre, hx⟩ := h.ahead k
  obtain ⟨f, hf, rfl⟩ := List.mem_map.mp (hpre.subset hu)
  exact ⟨f, rfl, hx f hf⟩

theorem Follows.head_pc (h : Follows s g e n) (k : Known mem s g) {u : Uop} {us : List Uop}
    (hu : s.uops g = u :: us) : u.pc = g.pc := by
  obtain ⟨⟨q, hw⟩, hpre, -⟩ := h.ahead k
  rw [hu] at hpre
  cases hd : e.pushed.drop n with
  | nil =>
      rw [hd] at hpre
      exact absurd hpre (by simp)
  | cons f fs =>
      rw [hd, List.map_cons, List.cons_prefix_cons] at hpre
      rw [hd] at hw
      rw [hpre.1, decodeRiscv_pc]
      exact hw.1

/-- What retires leads on, and the machine goes on following the program. -/
theorem Follows.next (h : Follows s g e n) (k : Known mem s g) (hr : s.back.core.rState ≠ .rat)
    (hh : s.back.core.rState ≠ .halt) (hf : s.front.NoFlush)
    (hk : s.front.restarts (s.frontIn i) = false)
    (hx : ∀ y ∈ s.retired g i, y.effect.faulted = false) :
    ∃ e n, Follows (s.step i) (watch mem g s i) e n := by
  obtain ⟨⟨q, hw⟩, hpre, hmem⟩ := h.ahead k
  obtain ⟨-, hgo⟩ := retired_walk hw (k.retired_first.trans hpre) (fun f hf => (hmem f hf).2)
    (fun y hy => k.retired_runs hy) hx
  have hlen : (s.retired g i).length ≤ (s.uops g).length := by
    rw [← List.length_map (f := RetiredUop.uop)]
    exact k.retired_first.length_le
  have hrob : (s.uops g).length = g.since.allocated.length - n := by
    rw [← h.rob, List.length_drop]
  have hall : g.since.allocated.length ≤ e.pushed.length := by
    have := k.linked.ordered.length_le
    rwa [List.length_map, ← h.pushed] at this
  have hle := h.le
  refine ⟨_, n + (s.retired g i).length, watch_epoch_none hf hk h.epoch, ?_, ?_, ?_, ?_⟩
  · rw [watch_since_none hk, pushed_snoc, ← h.pushed]
    rfl
  · rw [watch_since_none hk, List.length_append]
    omega
  · rw [watch_since_none hk, k.uops_step hr, List.drop_append_of_le_length (by omega),
      ← List.drop_drop, h.rob]
  · rw [pushed_snoc, List.take_append_of_le_length (by rw [← Epoch.pushed]; omega), watch_pc hh,
      List.take_add]
    exact h.walk.append hgo

/-! ### Where the machine can stand -/

theorem Executing.ne {c : CoreState} (h : Executing c) : ¬Restarting c ∧ ¬Halted c := by
  obtain h | (h | h | h | h) | h | h := h <;> subst h <;>
    simp [Restarting, Drains, Halted]

theorem Steered.of_follows (hs : Executing s.back.core.rState)
    (hv : s.back.core.rRestartValid = false) (h : ∃ e n, Follows s g e n) : Steered mem s g where
  follows _ _ := h
  turns _ hv' := absurd (hv.symm.trans hv') Bool.false_ne_true
  asks hr := absurd hr hs.ne.1
  granted hr := absurd hr hs.ne.1
  empty hh := absurd hh hs.ne.2

theorem Steered.of_turns (hs : Executing s.back.core.rState)
    (hv : s.back.core.rRestartValid = true) (h : Turns mem s g) : Steered mem s g where
  follows _ hv' := absurd (hv'.symm.trans hv) Bool.false_ne_true
  turns _ _ := h
  asks hr := absurd hr hs.ne.1
  granted hr := absurd hr hs.ne.1
  empty hh := absurd hh hs.ne.2

theorem Steered.of_asks (hs : Restarting s.back.core.rState) (hp : s.restartPending = true)
    (h : s.back.core.rRestartPc = g.pc) (he : Halted s.back.core.rState → s.uops g = []) :
    Steered mem s g where
  follows hx := absurd hs hx.ne.1
  turns hx := absurd hs hx.ne.1
  asks _ _ := h
  granted _ hp' := absurd (hp'.symm.trans hp) Bool.false_ne_true
  empty := he

theorem Steered.of_granted (hs : Restarting s.back.core.rState) (hp : s.restartPending = false)
    {e : Epoch} (h : Granted g e) (he : Halted s.back.core.rState → s.uops g = []) :
    Steered mem s g where
  follows hx := absurd hs hx.ne.1
  turns hx := absurd hs hx.ne.1
  asks _ hp' := absurd (hp.symm.trans hp') Bool.false_ne_true
  granted _ _ := ⟨e, h⟩
  empty := he

theorem Steered.of_halt (hx : ¬Executing s.back.core.rState) (hr : ¬Restarting s.back.core.rState)
    (he : Halted s.back.core.rState → s.uops g = []) : Steered mem s g where
  follows hs := absurd hs hx
  turns hs := absurd hs hx
  asks hs := absurd hs hr
  granted hs := absurd hs hr
  empty := he

theorem Granted.follows {e : Epoch} (h : Granted g e) (hu : s.uops g = []) : Follows s g e 0 where
  epoch := h.epoch
  pushed := h.pushed
  le := Nat.zero_le _
  rob := by rw [h.none, hu, List.drop_nil]
  walk := h.pc

/-! ### Cycles of ACTIVE -/

theorem Known.redirect (k : Known mem s g) (hs : s.back.core.rState = .active)
    (hn : (s.back.coreCtl (s.backIn i)).nState = .drain)
    (hpc : ∀ u us, s.uops g = u :: us → u.pc = g.pc) :
    (s.back.coreCtl (s.backIn i)).nRestartPc = lastPc g.pc (s.retired g i) := by
  have hslots := k.working.flowing.flow.slotsInv.window.slots
  obtain ⟨he, hret, hto⟩ | ⟨hret, h2, hfault, harch, hto⟩ := active_redirect hs hn
  · rw [retired_none hret]
    have hin : s.back.core.InRob (idx s.back.core.rRobHeadPtr) := by
      refine ⟨0, ?_, slot_zero _⟩
      rw [Nat.pos_iff_ne_zero]
      exact fun h0 => Bool.false_ne_true (he.symm.trans (robCount_eq_zero.mp h0))
    exact hto.trans ((hslots _ hin).pc.trans (hpc _ _ (Core.uops_cons he)))
  · have hretired : s.retired g i =
        [Back.retiredAt g.results s.back (idx s.back.core.rRobHeadPtr)] := by
      rw [retired, Back.retiredIn, show (s.back.coreCtl (s.backIn i)).tRetire = true from hret,
        show (s.back.coreCtl (s.backIn i)).tRetireTwo = false from h2]
      rfl
    obtain ⟨a, b, hrun⟩ := k.retired_runs (i := i) (hretired ▸ List.mem_singleton_self _)
    obtain ⟨f, hf⟩ := (hslots _ (k.working.head_inRob hret)).decoded
    rw [hretired]
    show _ = RetiredUop.next _
    refine hto.trans ?_
    rw [tArchFault, hfault, Bool.true_and, Bool.or_eq_false_iff, Bool.or_eq_false_iff] at harch
    rw [show (Back.retiredAt g.results s.back (idx s.back.core.rRobHeadPtr)).uop = decodeRiscv f
      from hf] at hrun
    rw [RetiredUop.next, show (Back.retiredAt g.results s.back (idx s.back.core.rRobHeadPtr)).uop =
      decodeRiscv f from hf]
    exact hrun.target_eq hfault harch.1.2 harch.2

theorem stays_faulted (hs : s.back.core.rState = .active)
    (hn : (s.back.coreCtl (s.backIn i)).nState = .active) {y : RetiredUop}
    (hy : y ∈ s.retired g i) : y.effect.faulted = false := by
  have hret : (s.back.coreCtl (s.backIn i)).tRetire = true := by
    by_contra h
    rw [retired_none (Bool.eq_false_iff.mpr h)] at hy
    cases hy
  have hne : ∀ q, q ≠ CoreState.active →
      (s.back.core.ctl (s.back.coreIn (s.backIn i))).nState ≠ q := fun q hq he =>
    hq (he.symm.trans hn)
  exact retired_faulted hy
    (active_goes hs (hne _ (by decide)) (hne _ (by decide)) (active_retires hs hret)).2

theorem Known.drain_steered (k : Known mem s g) (hs : s.back.core.rState = .active)
    (hn : (s.back.coreCtl (s.backIn i)).nState = .drain)
    (hv : (s.back.coreCtl (s.backIn i)).nRestartValid = true)
    (hpc : ∀ u us, s.uops g = u :: us → u.pc = g.pc) :
    Steered mem (s.step i) (watch mem g s i) := by
  have hst : (s.step i).back.core.rState = .drain := hn
  have hp : (s.step i).restartPending = true := by
    rw [restartPending, Bool.or_eq_true]
    exact .inl hv
  refine .of_asks (.inl (.inl hst)) hp ?_ fun hx => ?_
  · rw [watch_pc (by rw [hs]; decide)]
    exact k.redirect hs hn hpc
  · rw [hst] at hx
    simp [Halted] at hx

theorem fault_steered (hn : (s.back.coreCtl (s.backIn i)).nState = .archFault) :
    Steered mem (s.step i) (watch mem g s i) := by
  have hst : (s.step i).back.core.rState = .archFault := hn
  refine .of_halt ?_ ?_ ?_ <;> rw [hst] <;>
    simp [Executing, Serial, Waits, Restarting, Drains, Halted]

theorem Follows.active_step (h : Follows s g e n) (k : Known mem s g)
    (hs : s.back.core.rState = .active) (hf : s.front.NoFlush) (hn : s.front.NoReq) :
    Steered mem (s.step i) (watch mem g s i) := by
  have hr : s.back.core.rState ≠ .rat := by rw [hs]; decide
  have hh : s.back.core.rState ≠ .halt := by rw [hs]; decide
  have hk := hn.restarts (i := s.frontIn i)
  cases activeMove (i := s.back.coreIn (s.backIn i)) hs with
  | stay hst hv =>
      exact .of_follows (.inl hst) hv (h.next k hr hh hf hk fun y hy => stays_faulted hs hst hy)
  | drain hst hv _ _ => exact k.drain_steered hs hst hv fun u us hu => h.head_pc k hu
  | fault hst _ _ _ _ => exact fault_steered hst
  | serial hst hv _ he _ _ =>
      have hret : (s.back.coreCtl (s.backIn i)).tRetire = false := Bool.eq_false_iff.mpr fun h1 =>
        Bool.false_ne_true ((k.working.leaving h1).2.1.symm.trans he)
      have hexec : Executing (s.step i).back.core.rState :=
        .inr (.inl (hst.elim .inl fun h => .inr (.inl h)))
      refine .of_follows hexec hv (h.next k hr hh hf hk fun y hy => ?_)
      rw [retired_none hret] at hy
      cases hy

/-- In the first cycle after a wait the serializing uop retires, if it has not, and what was
granted is followed. -/
theorem Turns.active_step (h : Turns mem s g) (k : Known mem s g)
    (hs : s.back.core.rState = .active) (hk : s.front.restarts (s.frontIn i) = true)
    (hd : dqView s.back.core = []) : Steered mem (s.step i) (watch mem g s i) := by
  have hr : s.back.core.rState ≠ .rat := by rw [hs]; decide
  have hh : s.back.core.rState ≠ .halt := by rw [hs]; decide
  have ha := (Front.nAllocated_of_empty (i := s.frontIn i) k.linked.dqPtrs hd).2
  have hnone : s.back.core.allocatedUops (s.back.coreIn (s.backIn i)) = [] :=
    if_neg (Bool.eq_false_iff.mp ha)
  obtain ⟨hepoch, hsince⟩ : (watch mem g s i).fetch.epoch = _ ∧ (watch mem g s i).since = _ :=
    watch_of_restarts hk
  have hstep := k.uops_step (i := i) hr
  rw [hnone, List.append_nil] at hstep
  -- what is granted is followed if it is where the machine stands
  have hfollow : (s.step i).uops (watch mem g s i) = [] →
      s.back.core.rRestartPc = lastPc g.pc (s.retired g i) →
      Follows (s.step i) (watch mem g s i) ⟨s.back.core.rRestartPc, [], []⟩ 0 := fun hu hpc =>
    Granted.follows ⟨hepoch, by rw [hsince]; rfl, by rw [hsince], hpc.trans (watch_pc hh).symm⟩ hu
  cases activeMove (i := s.back.coreIn (s.backIn i)) hs with
  | stay hst hv =>
      refine .of_follows (.inl hst) hv ⟨⟨s.back.core.rRestartPc, [], []⟩, 0, ?_⟩
      obtain ⟨hu, hpc⟩ | ⟨u, hu, hc, hz, ⟨f, rfl, -⟩, hpc, hto⟩ := h
      · have hret : s.retired g i = [] := by
          have hpre := k.retired_first (i := i)
          rw [hu, List.prefix_nil, List.map_eq_nil_iff] at hpre
          exact hpre
        rw [hu, List.drop_nil] at hstep
        exact hfollow hstep (by rw [hret]; exact hpc)
      · have hne : s.back.core.tRobEmpty = false := by
          by_contra he
          rw [Bool.not_eq_false] at he
          have hnil := Core.uops_eq_nil (l := g.results.flow.slots).mpr (robCount_eq_zero.mpr he)
          rw [show Core.uops g.results.flow.slots s.back.core = _ from hu] at hnil
          cases hnil
        have hcan : s.back.core.tCanRetireRobHead = true := by
          rw [tCanRetireRobHead, hc, hne]
          rfl
        have hne' : ∀ q, q ≠ CoreState.active →
            (s.back.core.ctl (s.back.coreIn (s.backIn i))).nState ≠ q := fun q hq he =>
          hq (he.symm.trans hst)
        obtain ⟨hret, -⟩ := active_goes hs (hne' _ (by decide)) (hne' _ (by decide)) hcan
        obtain ⟨y, hy, hyu⟩ := k.one_retired hu hret
        have hmem : y ∈ s.retired g i := hy ▸ List.mem_singleton_self y
        rw [hy, hu] at hstep
        refine hfollow hstep ?_
        obtain ⟨a, b, hrun⟩ := k.retired_runs hmem
        rw [hyu] at hrun
        rw [hy]
        show _ = y.next
        rw [RetiredUop.next, hyu, Uop.next_serial hz]
        refine hto.resolve_right fun hstop => ?_
        have hno := stays_faulted hs hst hmem
        rw [(hstop.1 _ _ _ _ hrun).1] at hno
        cases hno
  | drain hst hv _ _ =>
      refine k.drain_steered hs hst hv fun u us hu => ?_
      obtain ⟨hu', -⟩ | ⟨v, hv, -, -, -, hpc, -⟩ := h
      · rw [hu'] at hu
        cases hu
      · rw [hv] at hu
        obtain ⟨rfl, -⟩ := List.cons.inj hu
        exact hpc
  | fault hst _ _ _ _ => exact fault_steered hst
  | serial _ _ _ _ hq _ =>
      refine absurd hq ?_
      rw [Bool.not_eq_false]
      have ho : occ s.back.core.rDqHeadPtr s.back.core.rDqTailPtr = 0 := by
        rw [← contents_length s.back.core.rDq, ← dqView, hd, List.length_nil]
      rw [tDqEmpty, occ_eq_zero_iff.mp ho]
      exact beq_self_eq_true _

/-! ### Cycles around a serializing uop -/

/-- The uop that a wait is for, and the restart it asks for once it is complete. -/
theorem Known.waited (k : Known mem s g) (hs : Waits s.back.core.rState) :
    ∃ u, s.uops g = [u] ∧ u.serializingOp = true ∧ (s.back.core.tRobHeadComplete = true →
      ((s.back.coreCtl (s.backIn i)).nRestartPc = u.pc + 4 ∨
        u.Stops ∧ s.back.core.rState ≠ .waitForMonitor)) := by
  have ho := k.working.flowing.inv.occ
  have hone := ho.one hs
  have hin : s.back.core.InRob (idx s.back.core.rRobHeadPtr) :=
    ⟨0, Nat.lt_of_lt_of_eq Nat.one_pos hone.symm, slot_zero _⟩
  have hok := k.working.flowing.flow.slotsInv.window.slots _ hin
  have hz := k.working.serial hs _ hin
  have hne : s.back.core.tRobEmpty = false := by
    by_contra he
    rw [Bool.not_eq_false] at he
    rw [robCount_eq_zero.mpr he] at hone
    cases hone
  refine ⟨(g.results.flow.slots (idx s.back.core.rRobHeadPtr)).decoded, ?_, hz, fun hc => ?_⟩
  · have hlen := Core.length_uops (l := g.results.flow.slots) (s := s.back.core)
    rw [hone, Core.uops_cons hne, List.length_cons, Nat.add_eq_right,
      List.length_eq_zero_iff] at hlen
    rw [uops, Core.uops_cons hne, hlen]
  · have hd : s.back.core.rDsDone = false := Bool.eq_false_iff.mpr fun hd => by
      obtain (h | h) | h := ho.ds.up hd <;> obtain hs | hs := hs <;> rw [hs] at h <;> cases h
    have hcomp : s.back.core.rRobComplete (idx s.back.core.rRobHeadPtr) = true := by
      rw [tRobHeadComplete, Bool.and_eq_true] at hc
      exact hc.2
    obtain ⟨a, b, hrun⟩ := finished_runs ((k.working.results hd).done _ hin hcomp)
    obtain ⟨f, hf⟩ := hok.decoded
    rw [hf] at hrun hz
    obtain ⟨hm, hto⟩ | hto := waits_restartPc (i := s.back.coreIn (s.backIn i)) hs hc
    · obtain ht | ht := serial_target hz
      · exact .inl (hto.trans (hf ▸ ht _ _ _ _ hrun))
      · exact .inr ⟨hf ▸ ht, hm⟩
    · exact .inl (hto.trans (congrArg (· + 4) hok.pc))

theorem Known.wait_step (k : Known mem s g) (hs : Waits s.back.core.rState)
    (hc : s.back.core.tRobHeadComplete = true)
    (hg : s.back.core.nGotRestartAck (s.back.coreIn (s.backIn i)) = false)
    (he : CompletesFully (s.frontIn i))
    (hu : ∀ u, s.uops g = [u] → Loaded mem u ∧ u.pc = g.pc) :
    Steered mem (s.step i) (watch mem g s i) := by
  obtain ⟨u, hrob, hz, hto⟩ := k.waited (i := i) hs
  obtain ⟨hv, -, ha, -, -, hret, hst⟩ := waits_complete (i := s.back.coreIn (s.backIn i)) hs hc
  rw [hg, Bool.and_false] at hret
  rw [hg] at hst
  have hst' : (s.step i).back.core.rState = s.back.core.rState := hst
  have hnone : s.back.core.allocatedUops (s.back.coreIn (s.backIn i)) = [] :=
    if_neg (Bool.eq_false_iff.mp ha)
  have hrob' := k.uops_step (i := i) hs.ne.2.2
  have hpc : (watch mem g s i).pc = lastPc g.pc (s.retired g i) := watch_pc fun hh => by
    obtain hs | hs := hs <;> rw [hs] at hh <;> cases hh
  rw [retired_none hret] at hpc hrob'
  rw [hnone, List.append_nil, hrob] at hrob'
  refine .of_turns (.inr (.inr (hst' ▸ hs))) hv (.inr ⟨u, hrob', ?_, hz, (hu u hrob).1, ?_, ?_⟩)
  · exact (Front.asking_next (s := s.front) (i := s.frontIn i) hs hc hg he).2.2.1
  · rw [hpc]
    exact (hu u hrob).2
  · rw [hst']
    exact hto hc

/-- A wait whose restart is acknowledged is over; a monitor call retires. -/
theorem Known.waited_step (k : Known mem s g) (hs : Waits s.back.core.rState)
    (hc : s.back.core.tRobHeadComplete = true)
    (hg : s.back.core.nGotRestartAck (s.back.coreIn (s.backIn i)) = true)
    (he : CompletesFully (s.frontIn i))
    (hu : ∀ u, s.uops g = [u] → Loaded mem u ∧ u.pc = g.pc) :
    Steered mem (s.step i) (watch mem g s i) := by
  obtain ⟨u, hrob, hz, hto⟩ := k.waited (i := i) hs
  obtain ⟨hv, -, ha, ha2, hb, hret, hst⟩ :=
    waits_complete (i := s.back.coreIn (s.backIn i)) hs hc
  rw [hg, Bool.and_true] at hret
  rw [hg] at hst
  have hst' : (s.step i).back.core.rState = .active := hst
  have hnone : s.back.core.allocatedUops (s.back.coreIn (s.backIn i)) = [] :=
    if_neg (Bool.eq_false_iff.mp ha)
  have hrob' := k.uops_step (i := i) hs.ne.2.2
  have hpc : (watch mem g s i).pc = lastPc g.pc (s.retired g i) := watch_pc fun hh => by
    obtain hs | hs := hs <;> rw [hs] at hh <;> cases hh
  rw [hnone, List.append_nil, hrob] at hrob'
  refine .of_turns (.inl hst') hv ?_
  by_cases hm : s.back.core.rState = .waitForMonitor
  · rw [decide_eq_true hm] at hret
    obtain ⟨y, hy, hyu⟩ := k.one_retired hrob hret
    obtain ⟨⟨f, rfl, -⟩, -⟩ := hu u hrob
    rw [hy] at hpc hrob'
    refine .inl ⟨hrob', ?_⟩
    rw [hpc]
    refine ((hto hc).resolve_right fun h => h.2 hm).trans ?_
    show _ = y.next
    rw [RetiredUop.next, hyu, Uop.next_serial hz]
  · rw [decide_eq_false hm] at hret
    rw [retired_none hret] at hpc hrob'
    refine .inr ⟨u, hrob', ?_, hz, (hu u hrob).1, ?_, ?_⟩
    · exact tRobHeadComplete_step hs.ne.2.2 hc ha ha2 hret hb he.one he.two
    · rw [hpc]
      exact (hu u hrob).2
    · exact (hto hc).imp_right fun h => ⟨h.1, by rw [hst']; decide⟩

theorem Turns.alone (h : Turns mem s g) :
    ∀ u, s.uops g = [u] → Loaded mem u ∧ u.pc = g.pc := by
  intro u hu
  obtain ⟨hnil, -⟩ | ⟨v, hv, -, -, hl, hpc, -⟩ := h
  · rw [hnil] at hu
    cases hu
  · rw [hv] at hu
    obtain ⟨rfl, -⟩ := List.cons.inj hu
    exact ⟨hl, hpc⟩

/-! ### Cycles of a restart -/

theorem restarting_move (hs : Restarting s.back.core.rState) :
    (s.back.coreCtl (s.backIn i)).nRestartValid = false ∧
      (s.back.coreCtl (s.backIn i)).tAlloc = false ∧
      (s.back.coreCtl (s.backIn i)).tRetire = false ∧
      (Restarting (s.back.coreCtl (s.backIn i)).nState ∨
        (s.back.coreCtl (s.backIn i)).nState = .active ∧
          (s.back.core.rState = .rat ∨ s.back.core.rState = .haltWaitForRestart)) := by
  have hret : (s.back.coreCtl (s.backIn i)).tRetire = false := by
    rw [Back.coreCtl, ctl_tRetire]
    obtain (hs | hs) | hs := hs <;> rw [hs]
  obtain hs | hs := hs
  · obtain ⟨hv, ha, hst | ⟨hr, -, hst, -⟩⟩ := drainsMove (i := s.back.coreIn (s.backIn i)) hs
    · exact ⟨hv, ha, hret, .inl (.inl hst)⟩
    · exact ⟨hv, ha, hret, .inr ⟨hst, .inl hr⟩⟩
  · obtain ⟨hv, hst⟩ := haltWaitMove (i := s.back.coreIn (s.backIn i)) hs
    have ha : (s.back.coreCtl (s.backIn i)).tAlloc = false := by
      rw [Back.coreCtl, ctl_tAlloc, hs]
    exact ⟨hv, ha, hret, hst.elim (fun hst => .inr ⟨hst, .inr hs⟩) fun hst => .inl (.inr hst)⟩

theorem Known.uops_empty (k : Known mem s g) (hu : s.uops g = [])
    (ha : (s.back.coreCtl (s.backIn i)).tAlloc = false) :
    (s.step i).uops (watch mem g s i) = [] := by
  by_cases hr : s.back.core.rState = .rat
  · exact uops_rat hr
  · have hnone : s.back.core.allocatedUops (s.back.coreIn (s.backIn i)) = [] :=
      if_neg (Bool.eq_false_iff.mp ha)
    rw [k.uops_step hr, hu, hnone, List.drop_nil, List.nil_append]

theorem Known.halted_empty (k : Known mem s g) (h : Steered mem s g)
    (hs : Restarting s.back.core.rState) (hh : Halted (s.step i).back.core.rState) :
    (s.step i).uops (watch mem g s i) = [] := by
  obtain hfrom | hfrom := ctl_halted (s := s.back.core) (i := s.back.coreIn (s.backIn i)) hh
  · exact k.uops_empty (h.empty hfrom) (restarting_move hs).2.1
  · exact absurd hfrom k.working.flowing.faultFree.choose_spec.noWrite.2

theorem Known.asking_step (k : Known mem s g) (h : Steered mem s g)
    (hs : Restarting s.back.core.rState) (hp : s.restartPending = true)
    (hk : s.front.restarts (s.frontIn i) = false)
    (hst : Restarting (s.step i).back.core.rState) :
    Steered mem (s.step i) (watch mem g s i) := by
  have hreq : (s.step i).l1i.rRestartReq = true := by
    have hstep := Front.step_rRestartReq (s := s.front) (i := s.frontIn i)
    rw [hk, Bool.not_false, Bool.and_true] at hstep
    exact hstep.trans hp
  refine .of_asks hst (by rw [restartPending, hreq, Bool.or_true]) ?_ (k.halted_empty h hs)
  have hh : s.back.core.rState ≠ .halt := by
    obtain (hs | hs) | hs := hs <;> rw [hs] <;> decide
  rw [watch_pc hh, retired_none (restarting_move hs).2.2.1]
  exact (drains_restartPc hs).trans (h.asks hs hp)

/-- Once the restart is granted the core goes on when it likes. -/
theorem Known.granted_step (k : Known mem s g) (h : Steered mem s g)
    (hs : Restarting s.back.core.rState) {e : Epoch} (hg : Granted (watch mem g s i) e)
    (hreq : (s.step i).l1i.rRestartReq = false) : Steered mem (s.step i) (watch mem g s i) := by
  obtain ⟨hv, ha, -, hst | ⟨hst, hfrom⟩⟩ := restarting_move (i := i) hs
  · refine .of_granted hst ?_ hg (k.halted_empty h hs)
    rw [restartPending, show (s.step i).back.core.rRestartValid = false from hv, hreq]
    rfl
  · refine .of_follows (.inl hst) hv ⟨e, 0, hg.follows ?_⟩
    obtain hr | hw := hfrom
    · exact uops_rat hr
    · exact k.uops_empty (h.empty (.inr (.inr hw))) ha

theorem Known.grants_step (k : Known mem s g) (h : Steered mem s g)
    (hs : Restarting s.back.core.rState) (hp : s.restartPending = true)
    (hk : s.front.restarts (s.frontIn i) = true) : Steered mem (s.step i) (watch mem g s i) := by
  obtain ⟨hepoch, hsince⟩ : (watch mem g s i).fetch.epoch = _ ∧ (watch mem g s i).since = _ :=
    watch_of_restarts hk
  have hh : s.back.core.rState ≠ .halt := by
    obtain (hs | hs) | hs := hs <;> rw [hs] <;> decide
  refine k.granted_step h hs (e := ⟨s.back.core.rRestartPc, [], []⟩)
    ⟨hepoch, by rw [hsince]; rfl, by rw [hsince], ?_⟩ ?_
  · rw [watch_pc hh, retired_none (restarting_move hs).2.2.1]
    exact h.asks hs hp
  · have hstep := Front.step_rRestartReq (s := s.front) (i := s.frontIn i)
    rw [hk, Bool.not_true, Bool.and_false] at hstep
    exact hstep

theorem Known.after_grant (k : Known mem s g) (h : Steered mem s g)
    (hs : Restarting s.back.core.rState) (hf : s.front.NoFlush) (hn : s.front.NoReq) :
    Steered mem (s.step i) (watch mem g s i) := by
  have hp : s.restartPending = false := by
    rw [restartPending, show s.back.core.rRestartValid = false from hn.now,
      show s.l1i.rRestartReq = false from hn.before]
    rfl
  obtain ⟨e, hg⟩ := h.granted hs hp
  have hk := hn.restarts (i := s.frontIn i)
  have hh : s.back.core.rState ≠ .halt := by
    obtain (hs | hs) | hs := hs <;> rw [hs] <;> decide
  obtain ⟨-, ha, hret, -⟩ := restarting_move (i := i) hs
  have hnone : s.back.core.allocatedUops (s.back.coreIn (s.backIn i)) = [] :=
    if_neg (Bool.eq_false_iff.mp ha)
  refine k.granted_step h hs ⟨watch_epoch_none hf hk hg.epoch, ?_, ?_, ?_⟩ ?_
  · rw [watch_since_none hk, pushed_snoc, ← hg.pushed]
    rfl
  · rw [watch_since_none hk, hg.none, hnone]
    rfl
  · rw [watch_pc hh, retired_none hret]
    exact hg.pc
  · have hstep := Front.step_rRestartReq (s := s.front) (i := s.frontIn i)
    rw [hn.anyRestartReq] at hstep
    exact hstep

/-! ### Halt -/

theorem Known.halt_step (k : Known mem s g) (h : Steered mem s g)
    (hs : s.back.core.rState = .halt) : Steered mem (s.step i) (watch mem g s i) := by
  obtain ⟨ha, hmove⟩ := haltMove (i := s.back.coreIn (s.backIn i)) hs
  have hempty := k.uops_empty (i := i) (h.empty (.inr (.inl hs))) ha
  obtain ⟨hst, -⟩ | ⟨hst, hv, -⟩ := hmove
  · have hst' : (s.step i).back.core.rState = .halt := hst
    refine .of_halt ?_ ?_ fun _ => hempty <;> rw [hst'] <;>
      simp [Executing, Serial, Waits, Restarting, Drains]
  · obtain ⟨hr, hpc⟩ := halt_resumes hs hst
    refine .of_asks (.inr hst) ?_ ?_ fun _ => hempty
    · rw [restartPending, show (s.step i).back.core.rRestartValid = true from hv]
      rfl
    · exact hpc.trans (if_pos ⟨hs, hr⟩ : (watch mem g s i).pc = i.resumePc).symm

theorem Known.boot_step (k : Known mem s g) (h : Steered mem s g)
    (hs : s.back.core.rState = .flushForHalt) : Steered mem (s.step i) (watch mem g s i) := by
  obtain ⟨ha, -, hmove⟩ := flushForHaltMove (i := s.back.coreIn (s.backIn i)) hs
  have hempty := k.uops_empty (i := i) (h.empty (.inl hs)) ha
  have hst : (s.step i).back.core.rState = .flushForHalt ∨
      (s.step i).back.core.rState = .halt := hmove.imp_right fun h => h.1
  refine .of_halt ?_ ?_ fun _ => hempty <;> obtain hst | hst := hst <;> rw [hst] <;>
    simp [Executing, Serial, Waits, Restarting, Drains]

/-! ### The invariant -/

theorem Steered.step (h : Steered mem s g) (k : Known mem s g) (hc : Fed mem (s, g) i)
    (he : CompletesFully (s.frontIn i)) : Steered mem (s.step i) (watch mem g s i) := by
  have hno := k.working.flowing.faultFree.choose_spec.noWrite
  cases k.linked.phase with
  | flow hs hr hf hn hq =>
      obtain ⟨e, n, hx⟩ := h.follows (.inl hs) hn.now
      exact hx.active_step k hs hf hn
  | tail hs hf hv hr ho =>
      exact (h.turns (.inl hs) hv).active_step k hs
        (hr.acks (Front.anyRestartReq_of_or (i := s.frontIn i) (.inl hv)) hf.asked) ho.dq
  | serial hs hr hf hn ha u us junk hd hq =>
      obtain ⟨e, n, hx⟩ := h.follows (.inr (.inl hs)) hn.now
      obtain ⟨hv, -, hmove⟩ := serialMove (i := s.back.coreIn (s.backIn i)) hs
      have hret : (s.back.coreCtl (s.backIn i)).tRetire = false := by
        rw [Back.coreCtl, ctl_tRetire]
        obtain hs' | hs' | hs' | hs' : Serial s.back.core.rState := hs <;> rw [hs']
      have hne : s.back.core.rState ≠ .rat ∧ s.back.core.rState ≠ .halt := by
        obtain hs' | hs' | hs' | hs' : Serial s.back.core.rState := hs <;> rw [hs'] <;> decide
      refine .of_follows (.inr (hmove.imp (fun h => h.1) id)) hv
        (hx.next k hne.1 hne.2 hf hn.restarts fun y hy => ?_)
      rw [retired_none hret] at hy
      cases hy
  | waiting hs hr hf hn ha ho =>
      obtain ⟨e, n, hx⟩ := h.follows (.inr (.inr hs)) hn.now
      cases hcomp : s.back.core.tRobHeadComplete
      · have hctl := waits_incomplete (i := s.back.coreIn (s.backIn i)) hs hcomp
        have hret : (s.back.coreCtl (s.backIn i)).tRetire = false := congrArg Ctl.tRetire hctl
        have hne : s.back.core.rState ≠ .halt := by
          obtain hs' | hs' : Waits s.back.core.rState := hs <;> rw [hs'] <;> decide
        have hst : (s.step i).back.core.rState = s.back.core.rState :=
          congrArg Ctl.nState hctl
        refine .of_follows (.inr (.inr (hst ▸ hs))) (congrArg Ctl.nRestartValid hctl)
          (hx.next k hs.ne.2.2 hne hf hn.restarts fun y hy => ?_)
        rw [retired_none hret] at hy
        cases hy
      · have hg := Front.nGotRestartAck_of_noAck (i := s.frontIn i) ha
        exact k.wait_step hs hcomp hg he fun u hu =>
          ⟨hx.loaded k (hu ▸ List.mem_singleton_self u), hx.head_pc k hu⟩
  | asking hs hr hf hv ha hcomp hd ho =>
      have hg := Front.nGotRestartAck_of_noAck (i := s.frontIn i) ha
      exact k.wait_step hs hcomp hg he (h.turns (.inr (.inr hs)) hv).alone
  | asked hs hf hv ha hcomp hr ho =>
      have hg := Front.nGotRestartAck_of_ack (i := s.frontIn i) hs.ne.1 ha
      exact k.waited_step hs hcomp hg he (h.turns (.inr (.inr hs)) hv).alone
  | draining hs hr hf hv ha ho =>
      have hp : s.restartPending = true := by
        rw [restartPending, Bool.or_eq_true]
        exact hv
      cases hk : s.front.restarts (s.frontIn i)
      · refine k.asking_step h (.inl hs) hp hk (.inl ?_)
        obtain ⟨-, -, hst | ⟨-, hg, -⟩⟩ := drainsMove (i := s.back.coreIn (s.backIn i)) hs
        · exact hst
        · obtain ha | hready := ha
          · have hnone := Front.nGotRestartAck_of_noAck (i := s.frontIn i) ha
            exact absurd (hnone.symm.trans hg) Bool.false_ne_true
          · rw [Front.restarts, hready.acks (Front.anyRestartReq_of_or hv) hf.asked] at hk
            cases hk
      · exact k.grants_step h (.inl hs) hp hk
  | drained hs hr hf hn hq ha => exact k.after_grant h (.inl hs) hf hn
  | fault hs hr hf hn ho => exact absurd hs hc.regular.noFault
  | flushAsked hs hr ha hl hd hm hn ho => exact absurd hs hno.1
  | flushing hs hn ha hf ho =>
      obtain hs | hs := hs
      · exact absurd hs hno.2
      · exact k.boot_step h hs
  | halted hs hi hf hn ho => exact k.halt_step h hs
  | resuming hs hi hf hv hd ho =>
      have hp : s.restartPending = true := by
        rw [restartPending, Bool.or_eq_true]
        exact .inl hv
      exact k.grants_step h (.inr hs) hp
        (L1i.idle_acks hi (Front.anyRestartReq_of_or (i := s.frontIn i) (.inl hv)))
  | resumed hs hr hf hn ha ho => exact k.after_grant h (.inr hs) hf hn

theorem steered_start {s : Pipe} (h : pipeMachine.reset s) : Steered mem s (.start mem) := by
  obtain ⟨⟨⟨rob, bob, dq, hc⟩, -⟩, -⟩ := h
  have hs : s.back.core.rState = .flushForHalt := by
    rw [hc]
    rfl
  refine .of_halt ?_ ?_ fun _ => ?_
  · rw [hs]
    simp [Executing, Serial, Waits]
  · rw [hs]
    simp [Restarting, Drains]
  · refine Core.uops_eq_nil.mpr ?_
    rw [hc]
    exact occ_self _

variable {x : Pipe × Past} {is : List PipeIn}

theorem reach_steered (h : (pathMachine mem).Reach (Fed mem) x) : Steered mem x.1 x.2 := by
  induction h with
  | reset h0 =>
      obtain ⟨hs, hg⟩ := h0
      rw [hg]
      exact steered_start hs
  | @step x i hr he ih =>
      have k := reach_known hr
      exact ih.step k he (completesFully k.working.flowing.reach)

/-! ### What retires -/

theorem retires_executing (hret : (s.back.coreCtl (s.backIn i)).tRetire = true) :
    Executing s.back.core.rState := by
  rw [Back.coreCtl, ctl_tRetire] at hret
  cases hs : s.back.core.rState <;> rw [hs] at hret <;>
    first | exact absurd hret Bool.false_ne_true | simp [Executing, Waits]

/-- **One cycle**: what retires begins at the pc of the next instruction, leads on from there, and
was loaded from the program. -/
theorem Steered.retires (h : Steered mem s g) (k : Known mem s g) :
    IsWalk RetiredUop.pc RetiredUop.next g.pc (s.retired g i) (lastPc g.pc (s.retired g i)) ∧
      ∀ y ∈ s.retired g i, Loaded mem y.uop := by
  cases hret : (s.back.coreCtl (s.backIn i)).tRetire
  · rw [retired_none hret]
    exact ⟨rfl, fun y hy => by cases hy⟩
  have hx := retires_executing hret
  cases hv : s.back.core.rRestartValid
  · obtain ⟨e, n, hf⟩ := h.follows hx hv
    have hpre := k.retired_first (i := i)
    refine ⟨?_, fun y hy => hf.loaded k (hpre.subset (List.mem_map_of_mem hy))⟩
    cases hfault : s.back.core.tRobHead.faulted
    · obtain ⟨⟨q, hw⟩, hrob, hmem⟩ := hf.ahead k
      exact (retired_walk hw (hpre.trans hrob) (fun f hf => (hmem f hf).2)
        (fun y hy => k.retired_runs hy) fun y hy => retired_faulted hy hfault).1
    · -- a faulted head retires alone
      have h2 : (s.back.coreCtl (s.backIn i)).tRetireTwo = false :=
        Bool.eq_false_iff.mpr fun h2 => by
          have hno := (tRetireTwo_spec (i := s.back.coreIn (s.backIn i)) h2).2.2.1
          rw [hfault] at hno
          cases hno
      have hone : s.retired g i =
          [Back.retiredAt g.results s.back (idx s.back.core.rRobHeadPtr)] := by
        rw [retired, Back.retiredIn, hret, h2]
        rfl
      rw [hone]
      exact ⟨hf.head_pc k (Core.uops_cons (k.working.leaving hret).2.1), rfl⟩
  · obtain ⟨hu, -⟩ | ⟨u, hu, -, -, hl, hpc, -⟩ := h.turns hx hv
    · have hne := (k.working.leaving hret).2.1
      rw [uops, Core.uops_cons hne] at hu
      cases hu
    · obtain ⟨y, hy, hyu⟩ := k.one_retired hu hret
      rw [hy]
      refine ⟨⟨?_, rfl⟩, fun z hz => ?_⟩
      · rw [RetiredUop.pc, hyu, hpc]
      · rw [List.mem_singleton.mp hz, hyu]
        exact hl

/-! ### Runs -/

/-- The instructions retired in a run, oldest first. -/
def trace (mem : Word → Line) : Pipe × Past → List PipeIn → List RetiredUop
  | _, [] => []
  | x, i :: is => x.1.retired x.2 i ++ trace mem ((pathMachine mem).step x i) is

/-- The core neither flushes for a halt nor is halted. -/
def Going (c : CoreState) : Prop := c ≠ .flushForHalt ∧ c ≠ .halt

theorem Known.going_step (k : Known mem s g) (h : Going s.back.core.rState) :
    Going (s.step i).back.core.rState := by
  have hno := k.working.flowing.faultFree.choose_spec.noWrite.2
  by_contra hx
  have hst : (s.back.core.ctl (s.back.coreIn (s.backIn i))).nState = .flushForHalt ∨
      (s.back.core.ctl (s.back.coreIn (s.backIn i))).nState = .halt := by
    rw [Going, not_and_or, not_not, not_not] at hx
    exact hx
  obtain (hf | hf | hf) | hf := ctl_halted (hst.elim .inl fun h => .inr (.inl h))
  · exact h.1 hf
  · exact h.2 hf
  · obtain ⟨-, hq | hq⟩ := haltWaitMove (i := s.back.coreIn (s.backIn i)) hf <;>
      rw [hq] at hst <;> obtain hst | hst := hst <;> cases hst
  · exact hno hf

theorem trace_walk (h : (pathMachine mem).Reach (Fed mem) x) (hg : Going x.1.back.core.rState)
    (ha : (pathMachine mem).Allowed (Fed mem) x is) :
    ∃ q, IsWalk RetiredUop.pc RetiredUop.next x.2.pc (trace mem x is) q := by
  induction is generalizing x with
  | nil => exact ⟨_, rfl⟩
  | cons i is ih =>
      have k := reach_known h
      obtain ⟨q, hq⟩ := ih (h.step ha.1) (k.going_step hg) ha.2
      have hpc : ((pathMachine mem).step x i).2.pc = lastPc x.2.pc (x.1.retired x.2 i) :=
        watch_pc hg.2
      rw [hpc] at hq
      exact ⟨q, ((reach_steered h).retires k).1.append hq⟩

theorem trace_loaded (h : (pathMachine mem).Reach (Fed mem) x)
    (ha : (pathMachine mem).Allowed (Fed mem) x is) : ∀ y ∈ trace mem x is, Loaded mem y.uop := by
  induction is generalizing x with
  | nil => exact fun y hy => by cases hy
  | cons i is ih =>
      intro y hy
      obtain hy | hy := List.mem_append.mp hy
      · exact ((reach_steered h).retires (reach_known h)).2 y hy
      · exact ih (h.step ha.1) ha.2 y hy

theorem trace_arch (h : (pathMachine mem).Reach (Fed mem) x)
    (ha : (pathMachine mem).Allowed (Fed mem) x is) : Back.Sequential x.1.back.arch
      (trace mem x is) ((pathMachine mem).run x is).1.back.arch := by
  induction is generalizing x with
  | nil => rfl
  | cons i is ih =>
      exact ((reach_known h).working.retires ha.1.regular).append (ih (h.step ha.1) ha.2)

/-- **Retirement follows the program.**  The host resumes the halted core at a pc.  As long as no
architectural fault is taken, every register handed out is free and fetches are answered from the
memory (`Fed`), the instructions retired from then on are those that sequential execution of the
program from that pc meets: the first is at that pc, each of the others is where the one before it
goes, each is the word of memory at its pc, and executed one after the other on the architectural
registers they have the effects that retire and leave the architectural registers of the state
reached.  Nothing of what was fetched along a wrong prediction, past a
serializing instruction or under an interrupt shows. -/
theorem program_order (h : (pathMachine mem).Reach (Fed mem) x)
    (hs : x.1.back.core.rState = .halt) {i : PipeIn} (hr : i.resume = true)
    (ha : (pathMachine mem).Allowed (Fed mem) x (i :: is)) :
    (∃ q, IsWalk RetiredUop.pc RetiredUop.next i.resumePc (trace mem x (i :: is)) q) ∧
      (∀ y ∈ trace mem x (i :: is), ∃ f, y.uop = decodeRiscv f ∧ f.pc = y.pc ∧
        f.data = wordAt mem y.pc) ∧
      Back.Sequential x.1.back.arch (trace mem x (i :: is))
        ((pathMachine mem).run x (i :: is)).1.back.arch := by
  refine ⟨?_, fun y hy => ?_, trace_arch h ha⟩
  · have hret : (x.1.back.coreCtl (x.1.backIn i)).tRetire = false := by
      rw [Back.coreCtl, ctl_tRetire, hs]
    have hgo : Going ((pathMachine mem).step x i).1.back.core.rState := by
      have hst : ((pathMachine mem).step x i).1.back.core.rState = .haltWaitForRestart := by
        show (x.1.back.core.ctl (x.1.back.coreIn (x.1.backIn i))).nState = _
        rw [ctl, hs]
        show (haltCtl _ _).nState = _
        rw [haltCtl, show (x.1.back.coreIn (x.1.backIn i)).resume = true from hr]
        rfl
      rw [hst]
      exact ⟨by decide, by decide⟩
    obtain ⟨q, hq⟩ := trace_walk (h.step ha.1) hgo ha.2
    have hpc : ((pathMachine mem).step x i).2.pc = i.resumePc := if_pos ⟨hs, hr⟩
    rw [hpc] at hq
    refine ⟨q, ?_⟩
    rw [trace, retired_none hret]
    exact hq
  · obtain ⟨f, hf, hw, -⟩ := trace_loaded h ha y hy
    have hpc : y.pc = f.pc := by rw [RetiredUop.pc, hf, decodeRiscv_pc]
    exact ⟨f, hf, hpc.symm, hpc ▸ hw⟩

/-! ### A run -/

instance (x : Pipe × Past) (i : PipeIn) : Decidable (Fed mem x i) :=
  decidable_of_iff (x.1.back.Regular (x.1.backIn i) ∧ (i.l1iMemRspValid = true →
    (x.2.fetch.pending x.1.l1i).any (fun a => i.l1iMemLoadData == mem (lineOf a)) = true)) <| by
    simp only [Option.any_eq_true, beq_iff_eq]
    exact ⟨fun h => ⟨h.1, h.2⟩, fun h => ⟨h.regular, h.answer⟩⟩

/-- `addi x1, x0, 5`, a branch over one word, `addi x2, x0, 99`, `add x2, x1, x1`; every line holds
the same. -/
def branchProgram (_ : Word) : Line :=
  0x00108133#32 ++ 0x06300113#32 ++ 0x00000463#32 ++ 0x00500093#32

/-- The pipeline once it is halted. -/
def branchHalted : Pipe × Past :=
  (pathMachine branchProgram).step (boot, startPast branchProgram boot.back)
    { PipeIn.idle with l2FlushComplete := true }

/-- A cycle in which the lower level answers a fetch. -/
def PipeIn.line : PipeIn :=
  { PipeIn.idle with l1iMemRspValid := true, l1iMemLoadData := branchProgram 0 }

/-- Three lines are fetched, two of them before the mispredicted branch restarts fetch. -/
def branchRun : List PipeIn :=
  List.replicate 4 .idle ++ [PipeIn.line] ++ List.replicate 5 .idle ++ [PipeIn.line] ++
    List.replicate 4 .idle ++ [PipeIn.line] ++ List.replicate 10 .idle

/-- The branch is mispredicted; the word behind it is fetched and does not retire. -/
theorem program_order_branch :
    let is := { PipeIn.idle with resume := true } :: branchRun
    (∃ q, IsWalk RetiredUop.pc RetiredUop.next 0 (trace branchProgram branchHalted is) q) ∧
      ((trace branchProgram branchHalted is).map fun y => (y.pc, y.dst, y.result)) =
        [(0, some 1, 5), (4, none, 0), (12, some 2, 10)] := by
  have hreach : (pathMachine branchProgram).Reach (Fed branchProgram) branchHalted :=
    reach_boot.step (by decide +kernel)
  have ha : (pathMachine branchProgram).Allowed (Fed branchProgram) branchHalted
      ({ PipeIn.idle with resume := true } :: branchRun) := by decide +kernel
  have h := program_order hreach (by decide +kernel) rfl ha
  exact ⟨h.1, by decide +kernel⟩

end Pipe
end Rv32Core
