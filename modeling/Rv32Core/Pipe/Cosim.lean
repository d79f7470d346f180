import Rv32Core.Pipe.Agree
import Rv32Core.Pipe.Path

/-! # The checker over a run

The simulator resumes the core with the interpreter at the same pc and with the same registers, and
runs the interpreter along with what retires.  As long as no instruction parts the two (`Parts`) the
check is silent: the interpreter follows the retired path, and at the end of every cycle its
registers, those that the simulator keeps and the architectural registers of the core are the
same. -/

namespace Rv32Core

open Clocked RingBuffer Walk Rv32Core.Core
open Rename (wrote Executes)

/-- The state on which `execRiscv` runs the switch: the host has answered its mailbox. -/
def Iss.hosted (tohostAddr : ℕ) (handleSyscall : Iss → BitVec 64 → Iss) (s : Iss) : Iss :=
  let tohost : BitVec 64 := (Iss.bytes s.mem tohostAddr 8 : BitVec 64) &&& 0xffffffff
  if tohost ≠ 0 then handleSyscall s tohost else s

/-! ### The two ports of the check -/

namespace Lockstep

variable {th : ℕ} {sc : Iss → BitVec 64 → Iss} {m : Lockstep} {r : Retirement} {t : Iss}

theorem eq_of {a b : Lockstep} (hg : a.gpr = b.gpr) (hs : a.ss = b.ss) : a = b := by
  cases a
  cases b
  cases hg
  cases hs
  rfl

theorem writeGpr_gpr (v : Bool) (p : ArchReg) (w : Word) :
    (m.writeGpr v p w).gpr = writeIf v p w m.gpr := by
  cases v
  · rfl
  · rw [writeIf_true]
    rfl

theorem checkOne_of_tracks (hv : r.retireValid = true) (hp : r.retirePc = m.ss.pc)
    (he : m.ss.execRiscv th sc = some t) (hg : t.gpr = (m.writeOne r).gpr) :
    m.checkOne th sc r = .ok ⟨t.gpr, t⟩ := by
  have hsame : ({ m.writeOne r with ss := t } : Lockstep).diverged = false := by
    simp [diverged, hg]
  rw [checkOne, if_pos hv, if_pos hp, execSs_of_some (v := t) (by rwa [writeOne_ss]), hg]
  simp only [compare, bind, Except.bind]
  rw [if_neg fun h => Bool.false_ne_true (hsame.symm.trans h.2)]

theorem checkTwo_of_tracks (hv : r.retireTwoValid = true) (hp : r.retireTwoPc = m.ss.pc)
    (he : m.ss.execRiscv th sc = some t) (hg : t.gpr = (m.writeTwo r).gpr) :
    m.checkTwo th sc r = .ok ⟨t.gpr, t⟩ := by
  rw [checkTwo, if_pos ⟨hv, hp⟩, execSs_of_some (v := t) (by rwa [writeTwo_ss]), hg]

end Lockstep

namespace Pipe

open Lockstep (follow)

variable {mem : Word → Line} {th : ℕ} {sc : Iss → BitVec 64 → Iss} {s : Pipe} {g : Past}
  {i : PipeIn} {c d u : Lockstep} {v t : Iss} {y : RetiredUop} {l m : List RetiredUop}

/-! ### Where the sides part -/

/-- What parts the interpreter from the core at the instruction `y`: its memory holds another word
at the pc, the host changes a register or the pc, or it does something else with the word. -/
inductive Parts (mem : Word → Line) (th : ℕ) (sc : Iss → BitVec 64 → Iss) (v : Iss)
    (y : RetiredUop) : Prop
  | code (h : (Iss.bytes v.mem v.pc.toNat 4 : Word) ≠ wordAt mem y.pc)
  | host (h : ¬((v.hosted th sc).pc = v.pc ∧ (v.hosted th sc).gpr = v.gpr))
  | insn (h : Differs (v.hosted th sc) (wordAt mem y.pc) y)

/-- The interpreter is at the instruction, with the registers on which the core executed it. -/
structure Ready (mem : Word → Line) (v : Iss) (y : RetiredUop) : Prop where
  pc : v.pc = y.pc
  runs : y.RunsOn v.gpr
  loaded : Loaded mem y.uop
  legal : y.uop.op ≠ .ii

/-- An instruction of the list parts the sides, and up to there the interpreter has followed. -/
def PartsIn (mem : Word → Line) (th : ℕ) (sc : Iss → BitVec 64 → Iss) (v : Iss)
    (l : List RetiredUop) : Prop :=
  ∃ front y rest w, l = front ++ y :: rest ∧ follow th sc v (front.map RetiredUop.pc) = some w ∧
    Ready mem w y ∧ Parts mem th sc w y

variable (th sc) in
/-- **One instruction**: it parts the sides, or the interpreter goes along. -/
theorem Ready.step (h : Ready mem v y) :
    Parts mem th sc v y ∨ ∃ t, v.execRiscv th sc = some t ∧ Tracks t v.gpr y := by
  by_cases hcode : (Iss.bytes v.mem v.pc.toNat 4 : Word) = wordAt mem y.pc
  · by_cases hhost : (v.hosted th sc).pc = v.pc ∧ (v.hosted th sc).gpr = v.gpr
    · obtain ⟨f, hu, hdata, -⟩ := h.loaded
      have hpc : y.pc = f.pc := by rw [RetiredUop.pc, hu, decodeRiscv_pc]
      have hx : Executed (v.hosted th sc) f y :=
        ⟨hu, by rw [hhost.1, h.pc, hpc], hhost.2 ▸ h.runs, hu ▸ h.legal⟩
      have hword : f.data = wordAt mem y.pc := by rw [hdata, hpc]
      by_cases hd : Differs (v.hosted th sc) (wordAt mem y.pc) y
      · exact .inl (.insn hd)
      · rw [← hword] at hd
        obtain ⟨t, ht⟩ := hx.executes fun hk => hd (.killed hk)
        refine .inr ⟨t, ?_, ?_⟩
        · rw [hword, ← hcode] at ht
          exact ht
        · rw [← hhost.2]
          exact (hx.tracks_iff ht).mpr hd
    · exact .inl (.host hhost)
  · exact .inl (.code hcode)

theorem PartsIn.append_right (h : PartsIn mem th sc v l) : PartsIn mem th sc v (l ++ m) := by
  obtain ⟨front, y, rest, w, rfl, hw, hr, hp⟩ := h
  exact ⟨front, y, rest ++ m, w, by simp, hw, hr, hp⟩

theorem PartsIn.append_left (hf : follow th sc v (l.map RetiredUop.pc) = some t)
    (h : PartsIn mem th sc t m) : PartsIn mem th sc v (l ++ m) := by
  obtain ⟨front, y, rest, w, rfl, hw, hr, hp⟩ := h
  refine ⟨l ++ front, y, rest, w, by simp, ?_, hr, hp⟩
  rw [List.map_append, Lockstep.follow_append, hf]
  exact hw

/-! ### One cycle -/

/-- The check has gone from `c` to `d` along the instructions `l`. -/
structure Kept (th : ℕ) (sc : Iss → BitVec 64 → Iss) (c d : Lockstep) (l : List RetiredUop) :
    Prop where
  follow : follow th sc c.ss (l.map RetiredUop.pc) = some d.ss
  gpr : d.gpr = l.foldl (fun f y => wrote y.dst y.result f) c.gpr
  same : d.ss.gpr = d.gpr
  pc : d.ss.pc = lastPc c.ss.pc l

theorem Kept.append (h : Kept th sc c u l) (h' : Kept th sc u d m) : Kept th sc c d (l ++ m) where
  follow := by
    rw [List.map_append, Lockstep.follow_append, h.follow]
    exact h'.follow
  gpr := by rw [List.foldl_append, ← h.gpr, h'.gpr]
  same := h'.same
  pc := by rw [h'.pc, h.pc, lastPc, lastPc, lastPc, List.foldl_append]

theorem Kept.nil (hs : c.ss.gpr = c.gpr) : Kept th sc c c [] := ⟨rfl, rfl, hs, rfl⟩

theorem Kept.one (h : v.execRiscv th sc = some t) (hr : Ready mem v y) (ht : Tracks t v.gpr y)
    {f : ArchReg → Word} (hf : v.gpr = f) : Kept th sc ⟨f, v⟩ ⟨t.gpr, t⟩ [y] where
  follow := Lockstep.follow_singleton.mpr ⟨hr.pc.symm, h⟩
  gpr := by
    rw [ht.gpr, hf]
    rfl
  same := rfl
  pc := ht.pc

/-- What a port shows of the instructions `l`, at most one. -/
structure Shows (valid : Bool) (pc : Word) (regValid : Bool) (ptr : ArchReg) (data : Word)
    (l : List RetiredUop) : Prop where
  retires : l = [] ∧ valid = false ∨ ∃ y, l = [y] ∧ valid = true ∧ pc = y.pc
  writes : ∀ f, writeIf regValid ptr data f = l.foldl (fun f y => wrote y.dst y.result f) f

variable (th sc) in
/-- **A port**: from its registers `d` the check `k` goes along with the instruction, or the
instruction parts the sides. -/
theorem Shows.kept {k : Except Halt Lockstep} {valid regValid : Bool} {p data : Word}
    {ptr : ArchReg} (h : Shows valid p regValid ptr data l)
    (hd : d.gpr = writeIf regValid ptr data c.gpr) (hss : d.ss = c.ss)
    (idle : valid = false → k = .ok d)
    (runs : ∀ t, valid = true → p = c.ss.pc → c.ss.execRiscv th sc = some t → t.gpr = d.gpr →
      k = .ok ⟨t.gpr, t⟩)
    (hs : c.ss.gpr = c.gpr) (hl : ∀ y ∈ l, Ready mem c.ss y) :
    (∃ u, k = .ok u ∧ Kept th sc c u l) ∨ PartsIn mem th sc c.ss l := by
  have hw := hd.trans (h.writes c.gpr)
  obtain ⟨rfl, hv⟩ | ⟨y, rfl, hv, hp⟩ := h.retires
  · exact .inl ⟨c, by rw [idle hv, Lockstep.eq_of hw hss], .nil hs⟩
  · have hr := hl y (List.mem_singleton_self y)
    obtain hx | ⟨t, he, ht⟩ := hr.step th sc
    · exact .inr ⟨[], y, [], c.ss, rfl, rfl, hr, hx⟩
    · have hg : t.gpr = d.gpr := by
        rw [hw, ht.gpr, hs]
        rfl
      exact .inl ⟨_, runs t hv (hp.trans hr.pc.symm) he hg, .one he hr ht hs⟩

variable (th sc) in
theorem Shows.one {r : Retirement} (h : Shows r.retireValid r.retirePc r.retireRegValid
    r.retireRegPtr r.retireRegData l) (hs : c.ss.gpr = c.gpr) (hl : ∀ y ∈ l, Ready mem c.ss y) :
    (∃ u, c.checkOne th sc r = .ok u ∧ Kept th sc c u l) ∨ PartsIn mem th sc c.ss l := by
  refine h.kept th sc (Lockstep.writeGpr_gpr ..) (Lockstep.writeOne_ss ..) (fun hv => ?_)
    (fun t hv hp he hg => Lockstep.checkOne_of_tracks hv hp he hg) hs hl
  rw [Lockstep.checkOne, hv, if_neg Bool.false_ne_true]
  rfl

variable (th sc) in
theorem Shows.two {r : Retirement} (h : Shows r.retireTwoValid r.retireTwoPc r.retireRegTwoValid
    r.retireRegTwoPtr r.retireRegTwoData l) (hs : c.ss.gpr = c.gpr)
    (hl : ∀ y ∈ l, Ready mem c.ss y) :
    (∃ u, c.checkTwo th sc r = .ok u ∧ Kept th sc c u l) ∨ PartsIn mem th sc c.ss l := by
  refine h.kept th sc (Lockstep.writeGpr_gpr ..) (Lockstep.writeTwo_ss ..) (fun hv => ?_)
    (fun t hv hp he hg => Lockstep.checkTwo_of_tracks hv hp he hg) hs hl
  rw [Lockstep.checkTwo, hv, if_neg fun hx => Bool.false_ne_true hx.1]
  rfl

theorem Uop.Runs.illegal {w : Uop} {a b : Word} {q : MemRsp} {o : Effect} (h : w.Runs a b q o)
    (hop : w.op = .ii) : o.faulted = true ∧ o.isIi = true := by
  cases h with
  | folded _ =>
      rw [Effect.initial, hop]
      exact ⟨rfl, rfl⟩
  | mul hu | div hu =>
      rw [hop] at hu
      cases hu
  | port _ _ hf _ | mem _ _ _ hf _ _ _ =>
      rw [hop] at hf
      cases hf

/-- No illegal instruction retires. -/
theorem Known.retired_legal (k : Known mem s g) (hy : y ∈ s.retired g i) : y.uop.op ≠ .ii := by
  intro hop
  obtain ⟨a, b, hr⟩ := k.retired_runs hy
  obtain ⟨hf, hii⟩ := Uop.Runs.illegal hr hop
  obtain ⟨f, hdec⟩ := k.working.decoded hy
  rw [retired, Back.retiredIn, List.mem_append] at hy
  obtain hy | hy := hy <;> split_ifs at hy with h1
  · obtain rfl := List.mem_singleton.mp hy
    have hr' : (s.back.core.ctl (s.back.coreIn (s.backIn i))).tRetire = true := h1
    rw [ctl_tRetire] at hr'
    cases hs : s.back.core.rState <;> rw [hs] at hr' <;>
      first | exact absurd hr' Bool.false_ne_true | skip
    · dsimp only at hr'
      rw [activeCtl_tRetire, Bool.and_eq_true, tArchFault] at hr'
      have hhead : s.back.core.tRobHead.faulted = true ∧ s.back.core.tRobHead.isIi = true :=
        ⟨hf, hii⟩
      rw [hhead.1, hhead.2] at hr'
      simp at hr'
    · -- behind a monitor call the head is a serializing uop
      have hz := k.working.serial (.inr hs) _ (k.working.head_inRob h1)
      change (Back.retiredAt g.results s.back _).uop.serializingOp = true at hz
      rw [hdec] at hz hop
      have hser := (decodeRiscv_serialOk f hz).1
      rw [hop] at hser
      cases hser
  · cases hy
  · obtain rfl := List.mem_singleton.mp hy
    have hno := (tRetireTwo_spec (i := s.back.coreIn (s.backIn i)) h1).2.2.2.1
    exact absurd (hf.symm.trans hno) (by decide)
  · cases hy

theorem walk_end {p q : Word} (h : IsWalk RetiredUop.pc RetiredUop.next p l q) :
    q = lastPc p l := by
  induction l generalizing p with
  | nil => exact h.symm
  | cons y l ih => exact ih h.2

theorem Shows.ready {valid regValid : Bool} {p data q : Word} {ptr : ArchReg}
    {f : ArchReg → Word} (h : Shows valid p regValid ptr data l) (hs : c.ss.gpr = c.gpr)
    (hw : IsWalk RetiredUop.pc RetiredUop.next c.ss.pc l q) (hx : Back.Sequential c.gpr l f)
    (hy : ∀ y ∈ l, Loaded mem y.uop ∧ y.uop.op ≠ .ii) : ∀ y ∈ l, Ready mem c.ss y := by
  obtain ⟨rfl, -⟩ | ⟨z, rfl, -⟩ := h.retires
  · exact fun y hy => by cases hy
  · intro y hin
    obtain rfl := List.mem_singleton.mp hin
    obtain ⟨hl, hop⟩ := hy y hin
    exact ⟨hw.1.symm, hs ▸ hx.1, hl, hop⟩

variable (th sc) in
theorem cycle_of_shows {r : Retirement} {q : Word} {f : ArchReg → Word}
    (h : Shows r.retireValid r.retirePc r.retireRegValid r.retireRegPtr r.retireRegData l)
    (h' : Shows r.retireTwoValid r.retireTwoPc r.retireRegTwoValid r.retireRegTwoPtr
      r.retireRegTwoData m) (hs : c.ss.gpr = c.gpr)
    (hw : IsWalk RetiredUop.pc RetiredUop.next c.ss.pc (l ++ m) q)
    (hx : Back.Sequential c.gpr (l ++ m) f)
    (hy : ∀ y ∈ l ++ m, Loaded mem y.uop ∧ y.uop.op ≠ .ii) :
    (∃ d, c.cycle th sc r = .ok d ∧ Kept th sc c d (l ++ m)) ∨
      PartsIn mem th sc c.ss (l ++ m) := by
  obtain ⟨p, hwl, hwm⟩ := hw.split
  obtain ⟨hxl, hxm⟩ := Executes.split hx
  obtain ⟨u, hu, hk⟩ | hp := h.one th sc hs
    (h.ready hs hwl hxl fun y hin => hy y (List.mem_append_left _ hin))
  · rw [walk_end hwl, ← hk.pc] at hwm
    rw [← hk.gpr] at hxm
    obtain ⟨d, hd, hk'⟩ | hp := h'.two th sc hk.same
      (h'.ready hk.same hwm hxm fun y hin => hy y (List.mem_append_right _ hin))
    · exact .inl ⟨d, Lockstep.cycle_of_ok hu hd, hk.append hk'⟩
    · exact .inr (hp.append_left hk.follow)
  · exact .inr hp.append_right

variable (th sc) in
/-- **One cycle of the check**: an instruction that retires parts the sides, or the check is silent
and the registers are the same again. -/
theorem Known.cycle_kept (k : Known mem s g) (hc : s.back.Regular (s.backIn i))
    (hg : c.gpr = s.back.arch) (hs : c.ss.gpr = c.gpr) {q : Word}
    (hw : IsWalk RetiredUop.pc RetiredUop.next c.ss.pc (s.retired g i) q)
    (hl : ∀ y ∈ s.retired g i, Loaded mem y.uop) :
    (∃ d, c.cycle th sc (s.step i).back.retirement = .ok d ∧ Kept th sc c d (s.retired g i) ∧
        d.gpr = (s.step i).back.arch) ∨ PartsIn mem th sc c.ss (s.retired g i) := by
  have hslots := k.working.flowing.flow.slotsInv.window.slots
  have hseq := k.working.retires hc
  rw [← hg] at hseq
  have hshow : ∀ {p : RobPtr} {b : Bool}, (b = true → s.back.core.InRob p) →
      Shows b (s.back.core.rRob p).pc ((s.back.core.rRob p).validDst && b) (s.back.core.rRob p).ldst
        (s.back.core.rRob p).data (if b then [Back.retiredAt g.results s.back p] else []) := by
    intro p b hin
    refine ⟨?_, fun f => (Back.retiredAt_eq_writeIf (fun hb => hslots p (hin hb)) f).symm⟩
    cases b
    · exact .inl ⟨rfl, rfl⟩
    · exact .inr ⟨_, rfl, rfl, (hslots p (hin rfl)).pc⟩
  have hone := hshow (b := (s.back.coreCtl (s.backIn i)).tRetire) fun h1 => k.working.head_inRob h1
  have htwo := hshow (b := (s.back.coreCtl (s.backIn i)).tRetireTwo)
    fun h2 => (k.working.next_inRob h2).1
  obtain ⟨d, hd, hk⟩ | hp := cycle_of_shows (r := (s.step i).back.retirement) th sc
    hone htwo hs hw hseq fun y hy => ⟨hl y hy, k.retired_legal hy⟩
  · refine .inl ⟨d, hd, hk, ?_⟩
    rw [hk.gpr]
    exact hseq.final.symm
  · exact .inr hp

/-! ### Runs -/

/-- What the core shows of retirement in a run, cycle by cycle. -/
def shown : Pipe → List PipeIn → List Retirement
  | _, [] => []
  | s, i :: is => (s.step i).back.retirement :: shown (s.step i) is

variable {x : Pipe × Past} {is : List PipeIn}

variable (th sc) in
theorem run_kept (h : (pathMachine mem).Reach (Fed mem) x) (hx : Going x.1.back.core.rState)
    (ha : (pathMachine mem).Allowed (Fed mem) x is) (hg : c.gpr = x.1.back.arch)
    (hs : c.ss.gpr = c.gpr) (hp : c.ss.pc = x.2.pc) :
    (∃ d, c.run th sc (shown x.1 is) = .ok d ∧ Kept th sc c d (trace mem x is) ∧
        d.gpr = ((pathMachine mem).run x is).1.back.arch) ∨
      PartsIn mem th sc c.ss (trace mem x is) := by
  induction is generalizing x c with
  | nil => exact .inl ⟨c, rfl, .nil hs, hg⟩
  | cons i is ih =>
      have k := reach_known h
      obtain ⟨hw, hl⟩ := (reach_steered h).retires (i := i) k
      obtain ⟨u, hu, hk, hgu⟩ | hx' := k.cycle_kept th sc ha.1.regular hg hs
        (hp ▸ hw) hl
      · have hpc : ((pathMachine mem).step x i).2.pc = lastPc x.2.pc (x.1.retired x.2 i) :=
          watch_pc hx.2
        obtain ⟨d, hd, hk', hgd⟩ | hx' := ih (c := u) (h.step ha.1) (k.going_step hx) ha.2 hgu
          hk.same (by rw [hk.pc, hpc, hp])
        · refine .inl ⟨d, ?_, hk.append hk', hgd⟩
          rw [shown, Lockstep.run_cons, hu]
          exact hd
        · exact .inr (hx'.append_left hk.follow)
      · exact .inr hx'.append_right

/-- **The lock-step check over a run.**  The host resumes the halted core at a pc, with the
interpreter at that pc and with the core's registers.  As long as no architectural fault is taken,
every register handed out is free and fetches are answered from the memory (`Fed`), the check is
silent and the interpreter follows the retired path, with the architectural registers and the pc
behind the last instruction at the end; or there is a first instruction that parts the two, and the
interpreter has come to it, with the registers on which the core executed it. -/
theorem lockstep_follows (th : ℕ) (sc : Iss → BitVec 64 → Iss)
    (h : (pathMachine mem).Reach (Fed mem) x) (hs : x.1.back.core.rState = .halt)
    (hr : i.resume = true) (ha : (pathMachine mem).Allowed (Fed mem) x (i :: is))
    (hg : c.gpr = x.1.back.arch) (hc : c.ss.gpr = x.1.back.arch) (hp : c.ss.pc = i.resumePc) :
    (∃ d, c.run th sc (shown x.1 (i :: is)) = .ok d ∧
        follow th sc c.ss ((trace mem x (i :: is)).map RetiredUop.pc) = some d.ss ∧
        d.gpr = ((pathMachine mem).run x (i :: is)).1.back.arch ∧
        d.ss.gpr = ((pathMachine mem).run x (i :: is)).1.back.arch ∧
        d.ss.pc = lastPc i.resumePc (trace mem x (i :: is))) ∨
      ∃ front y rest w, trace mem x (i :: is) = front ++ y :: rest ∧
        follow th sc c.ss (front.map RetiredUop.pc) = some w ∧ w.pc = y.pc ∧
        y.RunsOn w.gpr ∧ Parts mem th sc w y := by
  have hret : x.1.retired x.2 i = [] := retired_none <| by
    rw [Back.coreCtl, ctl_tRetire, hs]
  have hgo : Going ((pathMachine mem).step x i).1.back.core.rState := by
    have hst : ((pathMachine mem).step x i).1.back.core.rState = .haltWaitForRestart := by
      show (x.1.back.core.ctl (x.1.back.coreIn (x.1.backIn i))).nState = _
      rw [ctl, hs]
      show (haltCtl _ _).nState = _
      rw [haltCtl, show (x.1.back.coreIn (x.1.backIn i)).resume = true from hr]
      rfl
    rw [hst]
    exact ⟨by decide, by decide⟩
  have hpc : ((pathMachine mem).step x i).2.pc = i.resumePc := if_pos ⟨hs, hr⟩
  have htrace : trace mem x (i :: is) = trace mem ((pathMachine mem).step x i) is := by
    rw [trace, hret, List.nil_append]
  -- the cycle of the resume retires nothing
  have hstart := (reach_known h).cycle_kept th sc (c := c) (q := c.ss.pc) ha.1.regular hg
    (hc.trans hg.symm) (by rw [hret]; rfl) (by rw [hret]; exact fun y hy => by cases hy)
  rw [hret] at hstart
  obtain ⟨u, hu, hk, hgu⟩ | ⟨front, y, rest, w, hnil, -⟩ := hstart
  · have hss : c.ss = u.ss := Option.some.inj hk.follow
    have hrun : c.run th sc (shown x.1 (i :: is)) =
        u.run th sc (shown ((pathMachine mem).step x i).1 is) := by
      rw [shown, Lockstep.run_cons, hu]
      rfl
    rw [htrace, hrun, hss]
    obtain ⟨d, hd, hk', hgd⟩ | ⟨front, y, rest, w, htr, hw, hready, hx⟩ :=
      run_kept th sc (h.step ha.1) hgo ha.2 hgu hk.same (by rw [hpc, ← hp, hss])
    · refine .inl ⟨d, hd, hk'.follow, hgd, hk'.same.trans hgd, ?_⟩
      rw [hk'.pc, ← hss, hp]
    · exact .inr ⟨front, y, rest, w, htr, hw, hready.pc, hready.runs, hx⟩
  · exact absurd hnil (by simp)

/-! ### A run -/

/-- The interpreter's memory with `branchProgram`. -/
def branchBytes (a : ℕ) : BitVec 8 :=
  if a < 64 then (branchProgram 0).extractLsb' (8 * (a % 16)) 8 else 0

/-- The simulator when it resumes the core on it. -/
def branchChecker : Lockstep :=
  ⟨branchHalted.1.back.arch,
    { Iss.initState with gpr := branchHalted.1.back.arch, mem := branchBytes }⟩

/-- The check is silent over the run of `branchProgram`, and `x2` is 10 on both sides. -/
theorem lockstep_follows_branch :
    let is := { PipeIn.idle with resume := true } :: branchRun
    ((∃ d, branchChecker.run 1024 (fun s _ => s) (shown branchHalted.1 is) = .ok d ∧
        d.ss.gpr = ((pathMachine branchProgram).run branchHalted is).1.back.arch) ∨
      ∃ y w, Parts branchProgram 1024 (fun s _ => s) w y) ∧
    ((branchChecker.run 1024 (fun s _ => s) (shown branchHalted.1 is)).toOption.map
      fun d => (d.gpr 2, d.ss.gpr 2, d.ss.pc)) = some (10, 10, 16) := by
  have hreach : (pathMachine branchProgram).Reach (Fed branchProgram) branchHalted :=
    reach_boot.step (by decide +kernel)
  have ha : (pathMachine branchProgram).Allowed (Fed branchProgram) branchHalted
      ({ PipeIn.idle with resume := true } :: branchRun) := by decide +kernel
  refine ⟨?_, by decide +kernel⟩
  obtain ⟨d, hd, -, -, hg, -⟩ | ⟨-, y, -, w, -, -, -, -, hx⟩ :=
    lockstep_follows (c := branchChecker) 1024 (fun s _ => s) hreach (by decide +kernel) rfl ha
      rfl rfl rfl
  · exact .inl ⟨d, hd, hg⟩
  · exact .inr ⟨y, w, hx⟩

end Pipe
end Rv32Core
