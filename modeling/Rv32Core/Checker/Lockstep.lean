import Rv32Core.Interpret

/-! # The lock-step check

The main loop of the simulator with the checker enabled: each cycle it takes what the core shows
of retirement on its two ports, writes the retired registers into `s->gpr`, and runs the
interpreter state `ss` along.  Port one stops the loop when its pc is not `ss->pc`, and, after an
instruction that falls through, when a register differs.  Port two has no such branch: a pc other
than `ss->pc` is passed over.

The retired path is compared with the path the interpreter follows.  The other ways out of the
loop (a break, an undefined instruction, a bad address, the limits on cycles and instructions)
only end the list of cycles and are left out. -/

namespace Rv32Core

/-- What one cycle shows of retirement. -/
structure Retirement where
  retireValid : Bool
  retirePc : Word
  retireTwoValid : Bool
  retireTwoPc : Word
  retireRegValid : Bool
  retireRegPtr : ArchReg
  retireRegData : Word
  retireRegTwoValid : Bool
  retireRegTwoPtr : ArchReg
  retireRegTwoData : Word

namespace Retirement

variable (r : Retirement)

/-- The pc retired on port one. -/
def one : List Word := if r.retireValid then [r.retirePc] else []

/-- The pc retired on port two. -/
def two : List Word := if r.retireTwoValid then [r.retireTwoPc] else []

/-- The retired path: port one before port two. -/
def path (rs : List Retirement) : List Word := rs.flatMap fun r => r.one ++ r.two

end Retirement

/-- `s->gpr` and `*ss`. -/
structure Lockstep where
  gpr : ArchReg → Word
  ss : Iss

/-- Why the loop stops: the checker's report, or the interpreter's own `exit`. -/
inductive Halt where
  | mismatch
  | exit
deriving DecidableEq

namespace Lockstep

open Retirement

variable (tohostAddr : ℕ) (handleSyscall : Iss → BitVec 64 → Iss)
variable (m : Lockstep) (r : Retirement)

/-- `if(valid) s->gpr[ptr] = data`. -/
def writeGpr (valid : Bool) (ptr : ArchReg) (data : Word) : Lockstep :=
  if valid then { m with gpr := Function.update m.gpr ptr data } else m

/-- The update of `s->gpr` from port one. -/
def writeOne : Lockstep := m.writeGpr r.retireRegValid r.retireRegPtr r.retireRegData

/-- The update of `s->gpr` from port two. -/
def writeTwo : Lockstep := m.writeGpr r.retireRegTwoValid r.retireRegTwoPtr r.retireRegTwoData

/-- `execRiscv(ss)`. -/
def execSs : Except Halt Lockstep :=
  match m.ss.execRiscv tohostAddr handleSyscall with
  | some u => .ok { m with ss := u }
  | none => .error .exit

/-- The comparison of the 32 registers. -/
def diverged : Bool :=
  (List.range 32).any fun i => m.ss.gpr (BitVec.ofNat 5 i) != m.gpr (BitVec.ofNat 5 i)

/-- The check after the interpreter's step, which is skipped unless it went to the next word. -/
def compare : Except Halt Lockstep :=
  if m.ss.pc = r.retirePc + 4 ∧ m.diverged then .error .mismatch else .ok m

/-- Port one: the register update and the check. -/
def checkOne : Except Halt Lockstep :=
  if r.retireValid then
    if r.retirePc = m.ss.pc then do
      let u ← (m.writeOne r).execSs tohostAddr handleSyscall
      u.compare r
    else .error .mismatch
  else .ok (m.writeOne r)

/-- Port two: the register update and the step of the interpreter. -/
def checkTwo : Except Halt Lockstep :=
  if r.retireTwoValid ∧ r.retireTwoPc = m.ss.pc then
    (m.writeTwo r).execSs tohostAddr handleSyscall
  else .ok (m.writeTwo r)

/-- One cycle of the main loop. -/
def cycle : Except Halt Lockstep := do
  let u ← m.checkOne tohostAddr handleSyscall r
  u.checkTwo tohostAddr handleSyscall r

/-- The main loop over a list of cycles. -/
def run (rs : List Retirement) : Except Halt Lockstep :=
  rs.foldlM (cycle tohostAddr handleSyscall) m

/-! ### The interpreter's path -/

/-- The interpreter's state after it has followed a list of pcs, if these are its own. -/
def follow (s : Iss) : List Word → Option Iss
  | [] => some s
  | p :: ps =>
      if p = s.pc then (s.execRiscv tohostAddr handleSyscall).bind (follow · ps) else none

/-- A list of pcs differs from the interpreter's: a first part is followed, and the next pc is
another one. -/
def Departs (s : Iss) (ps : List Word) : Prop :=
  ∃ qs p rest u, ps = qs ++ p :: rest ∧ follow tohostAddr handleSyscall s qs = some u ∧ p ≠ u.pc

section Path

variable {tohostAddr handleSyscall} {s t u : Iss} {p : Word} {ps qs : List Word}

@[simp] theorem follow_nil : follow tohostAddr handleSyscall s [] = some s := rfl

theorem follow_singleton : follow tohostAddr handleSyscall s [p] = some t ↔
    p = s.pc ∧ s.execRiscv tohostAddr handleSyscall = some t := by
  simp only [follow]
  split_ifs with h <;> simp [h]

theorem follow_append : follow tohostAddr handleSyscall s (ps ++ qs) =
    (follow tohostAddr handleSyscall s ps).bind (follow tohostAddr handleSyscall · qs) := by
  induction ps generalizing s with
  | nil => simp
  | cons p ps ih =>
      simp only [List.cons_append, follow]
      split_ifs
      · simp only [Option.bind_assoc, ih]
      · simp

theorem not_departs_nil : ¬Departs tohostAddr handleSyscall s [] := by
  rintro ⟨qs, p, rest, u, h, -⟩
  exact absurd h (by simp)

theorem departs_singleton : Departs tohostAddr handleSyscall s [p] ↔ p ≠ s.pc := by
  constructor
  · rintro ⟨qs, q, rest, u, h, hu, hne⟩
    obtain ⟨rfl, hq⟩ | ⟨-, hq⟩ := (List.singleton_eq_append_iff).mp h
    · obtain ⟨rfl, -⟩ := List.cons.inj hq
      rw [follow_nil, Option.some.injEq] at hu
      exact hu ▸ hne
    · exact absurd hq (by simp)
  · intro h
    exact ⟨[], p, [], s, rfl, rfl, h⟩

theorem Departs.append_right (h : Departs tohostAddr handleSyscall s ps) (qs : List Word) :
    Departs tohostAddr handleSyscall s (ps ++ qs) := by
  obtain ⟨js, p, rest, u, rfl, hu, hne⟩ := h
  exact ⟨js, p, rest ++ qs, u, by simp, hu, hne⟩

theorem Departs.append_left (hs : follow tohostAddr handleSyscall s ps = some u)
    (h : Departs tohostAddr handleSyscall u qs) :
    Departs tohostAddr handleSyscall s (ps ++ qs) := by
  obtain ⟨js, p, rest, v, rfl, hv, hne⟩ := h
  refine ⟨ps ++ js, p, rest, v, by simp, ?_, hne⟩
  rw [follow_append, hs]
  exact hv

/-- A path departs in its first part or, once that is followed, in its second. -/
theorem Departs.of_append (h : Departs tohostAddr handleSyscall s (ps ++ qs)) :
    Departs tohostAddr handleSyscall s ps ∨
      ∃ u, follow tohostAddr handleSyscall s ps = some u ∧
        Departs tohostAddr handleSyscall u qs := by
  obtain ⟨js, p, rest, u, hjs, hu, hne⟩ := h
  obtain ⟨as, rfl, hqs⟩ | ⟨as, hps, has⟩ := List.append_eq_append_iff.mp hjs
  · right
    rw [follow_append, Option.bind_eq_some_iff] at hu
    obtain ⟨v, hv, hu⟩ := hu
    exact ⟨v, hv, as, p, rest, u, hqs, hu, hne⟩
  · cases as with
    | nil =>
        right
        refine ⟨u, ?_, [], p, rest, u, by simpa using has.symm, rfl, hne⟩
        simpa [hps] using hu
    | cons a as =>
        left
        obtain ⟨rfl, -⟩ := List.cons.inj has
        exact ⟨js, p, as, u, hps, hu, hne⟩

theorem Departs.follow_eq_none (h : Departs tohostAddr handleSyscall s ps) :
    follow tohostAddr handleSyscall s ps = none := by
  obtain ⟨js, p, rest, u, rfl, hu, hne⟩ := h
  rw [follow_append, hu, Option.bind_some, follow, if_neg hne]

end Path

/-! ### One cycle -/

/-- Port one's comparison fails: the pc is not the interpreter's, or the interpreter goes to the
next word and a register differs. -/
def Mismatches : Prop :=
  r.retireValid = true ∧ (r.retirePc ≠ m.ss.pc ∨
    ∃ u, m.ss.execRiscv tohostAddr handleSyscall = some u ∧ u.pc = r.retirePc + 4 ∧
      ({ m.writeOne r with ss := u } : Lockstep).diverged = true)

@[simp] theorem writeGpr_ss (valid : Bool) (ptr : ArchReg) (data : Word) :
    (m.writeGpr valid ptr data).ss = m.ss := by
  unfold writeGpr
  split_ifs <;> rfl

@[simp] theorem writeOne_ss : (m.writeOne r).ss = m.ss := m.writeGpr_ss ..

@[simp] theorem writeTwo_ss : (m.writeTwo r).ss = m.ss := m.writeGpr_ss ..

variable {tohostAddr handleSyscall m r} {t u : Lockstep} {v : Iss}

theorem execSs_of_some (h : m.ss.execRiscv tohostAddr handleSyscall = some v) :
    m.execSs tohostAddr handleSyscall = .ok { m with ss := v } := by
  rw [execSs, h]

theorem execSs_of_none (h : m.ss.execRiscv tohostAddr handleSyscall = none) :
    m.execSs tohostAddr handleSyscall = .error .exit := by
  rw [execSs, h]

theorem follow_of_checkOne (h : m.checkOne tohostAddr handleSyscall r = .ok u) :
    follow tohostAddr handleSyscall m.ss r.one = some u.ss := by
  unfold checkOne at h
  split_ifs at h with hv hp
  · rw [one, if_pos hv, follow_singleton]
    cases he : m.ss.execRiscv tohostAddr handleSyscall with
    | none =>
        rw [execSs_of_none (by rwa [writeOne_ss])] at h
        cases h
    | some v =>
        rw [execSs_of_some (v := v) (by rwa [writeOne_ss])] at h
        simp only [compare, bind, Except.bind] at h
        split_ifs at h
        cases h
        exact ⟨hp, rfl⟩
  · cases h
    rw [one, if_neg hv, writeOne_ss, follow_nil]

/-- Port one reports exactly when its comparison fails. -/
theorem checkOne_eq_mismatch : m.checkOne tohostAddr handleSyscall r = .error .mismatch ↔
    Mismatches tohostAddr handleSyscall m r := by
  unfold checkOne Mismatches
  split_ifs with hv hp
  · cases he : m.ss.execRiscv tohostAddr handleSyscall with
    | none =>
        rw [execSs_of_none (by rwa [writeOne_ss])]
        simp [bind, Except.bind, hp]
    | some v =>
        rw [execSs_of_some (v := v) (by rwa [writeOne_ss])]
        simp only [compare, bind, Except.bind]
        split_ifs with hc <;> simp_all
  · simp [hv, hp]
  · simp [hv]

theorem checkOne_of_follow (h : follow tohostAddr handleSyscall m.ss r.one = some v) :
    m.checkOne tohostAddr handleSyscall r = .error .mismatch ∨
      ∃ u, m.checkOne tohostAddr handleSyscall r = .ok u ∧ u.ss = v := by
  unfold checkOne
  by_cases hv : r.retireValid = true
  · rw [one, if_pos hv, follow_singleton] at h
    obtain ⟨hp, he⟩ := h
    rw [if_pos hv, if_pos hp, execSs_of_some (v := v) (by rwa [writeOne_ss])]
    simp only [compare, bind, Except.bind]
    split_ifs
    · exact .inl rfl
    · exact .inr ⟨_, rfl, rfl⟩
  · rw [one, if_neg hv, follow_nil, Option.some.injEq] at h
    rw [if_neg hv]
    exact .inr ⟨_, rfl, by rwa [writeOne_ss]⟩

/-- Port two never reports. -/
theorem checkTwo_ne_mismatch : m.checkTwo tohostAddr handleSyscall r ≠ .error .mismatch := by
  unfold checkTwo execSs
  split_ifs
  · cases (m.writeTwo r).ss.execRiscv tohostAddr handleSyscall <;> simp
  · simp

theorem follow_of_checkTwo (hp : r.retireTwoValid = true → r.retireTwoPc = m.ss.pc)
    (h : m.checkTwo tohostAddr handleSyscall r = .ok u) :
    follow tohostAddr handleSyscall m.ss r.two = some u.ss := by
  unfold checkTwo at h
  by_cases hv : r.retireTwoValid = true
  · rw [if_pos ⟨hv, hp hv⟩] at h
    rw [two, if_pos hv, follow_singleton]
    cases he : m.ss.execRiscv tohostAddr handleSyscall with
    | none =>
        rw [execSs_of_none (by rwa [writeTwo_ss])] at h
        cases h
    | some v =>
        rw [execSs_of_some (v := v) (by rwa [writeTwo_ss])] at h
        cases h
        exact ⟨hp hv, rfl⟩
  · rw [if_neg (fun hc => hv hc.1)] at h
    cases h
    rw [two, if_neg hv, writeTwo_ss, follow_nil]

theorem checkTwo_of_follow (h : follow tohostAddr handleSyscall m.ss r.two = some v) :
    ∃ u, m.checkTwo tohostAddr handleSyscall r = .ok u ∧ u.ss = v := by
  unfold checkTwo
  by_cases hv : r.retireTwoValid = true
  · rw [two, if_pos hv, follow_singleton] at h
    obtain ⟨hp, he⟩ := h
    rw [if_pos ⟨hv, hp⟩, execSs_of_some (v := v) (by rwa [writeTwo_ss])]
    exact ⟨_, rfl, rfl⟩
  · rw [two, if_neg hv, follow_nil, Option.some.injEq] at h
    rw [if_neg (fun hc => hv hc.1)]
    exact ⟨_, rfl, by rwa [writeTwo_ss]⟩

/-- Port two, on another pc: the loop goes on as if nothing had retired. -/
theorem checkTwo_of_ne (hp : r.retireTwoPc ≠ m.ss.pc) :
    m.checkTwo tohostAddr handleSyscall r = .ok (m.writeTwo r) := by
  rw [checkTwo, if_neg (fun hc => hp hc.2)]

/-! ### Runs -/

section Run

variable (tohostAddr : ℕ) (handleSyscall : Iss → BitVec 64 → Iss)
variable (m : Lockstep) (rs : List Retirement)

/-- In every cycle the loop reaches, what port two retires is the interpreter's next
instruction. -/
def PortTwoMatched : Prop :=
  ∀ js r t u, js ++ [r] <+: rs → m.run tohostAddr handleSyscall js = .ok t →
    t.checkOne tohostAddr handleSyscall r = .ok u → r.retireTwoValid = true →
      r.retireTwoPc = u.ss.pc

/-- Port one's comparison fails in a cycle the loop reaches. -/
def PortOneMismatches : Prop :=
  ∃ js r t, js ++ [r] <+: rs ∧ m.run tohostAddr handleSyscall js = .ok t ∧
    Mismatches tohostAddr handleSyscall t r

/-- Whenever the loop has not stopped, it has retired the path the interpreter followed. -/
def SilentRunsFollow : Prop :=
  ∀ js t, js <+: rs → m.run tohostAddr handleSyscall js = .ok t →
    follow tohostAddr handleSyscall m.ss (path js) = some t.ss

/-- Once the retired path differs from the interpreter's, the loop has stopped with a report no
later than in the next cycle in which port one retires. -/
def ReportsInTime : Prop :=
  ∀ front last, front ++ [last] <+: rs → last.retireValid = true →
    Departs tohostAddr handleSyscall m.ss (path front) →
      m.run tohostAddr handleSyscall (front ++ [last]) = .error .mismatch

end Run

variable {rs js : List Retirement} {hlt : Halt}

theorem run_cons : m.run tohostAddr handleSyscall (r :: rs) =
    (m.cycle tohostAddr handleSyscall r).bind (run tohostAddr handleSyscall · rs) := rfl

theorem run_append : m.run tohostAddr handleSyscall (rs ++ js) =
    (m.run tohostAddr handleSyscall rs).bind (run tohostAddr handleSyscall · js) :=
  List.foldlM_append

theorem path_cons : path (r :: rs) = r.one ++ (r.two ++ path rs) := by
  simp [path]

theorem path_append : path (rs ++ js) = path rs ++ path js := by
  simp [path]

theorem cycle_of_ok (hu : m.checkOne tohostAddr handleSyscall r = .ok u)
    (ht : u.checkTwo tohostAddr handleSyscall r = .ok t) :
    m.cycle tohostAddr handleSyscall r = .ok t := by
  rw [cycle, hu]
  exact ht

theorem ok_of_cycle (h : m.cycle tohostAddr handleSyscall r = .ok t) :
    ∃ u, m.checkOne tohostAddr handleSyscall r = .ok u ∧
      u.checkTwo tohostAddr handleSyscall r = .ok t := by
  unfold cycle at h
  cases hu : m.checkOne tohostAddr handleSyscall r with
  | error e =>
      rw [hu] at h
      cases h
  | ok u =>
      rw [hu] at h
      exact ⟨u, rfl, h⟩

theorem checkOne_of_cycle (h : m.cycle tohostAddr handleSyscall r = .error .mismatch) :
    m.checkOne tohostAddr handleSyscall r = .error .mismatch := by
  unfold cycle at h
  cases hu : m.checkOne tohostAddr handleSyscall r with
  | error e =>
      rw [hu] at h
      exact h
  | ok u =>
      rw [hu] at h
      exact absurd h checkTwo_ne_mismatch

theorem PortTwoMatched.of_prefix (hm : PortTwoMatched tohostAddr handleSyscall m rs)
    (h : js <+: rs) : PortTwoMatched tohostAddr handleSyscall m js :=
  fun ks r t u hpre => hm ks r t u (hpre.trans h)

theorem portTwoMatched_cons : PortTwoMatched tohostAddr handleSyscall m (r :: rs) ↔
    ∀ u, m.checkOne tohostAddr handleSyscall r = .ok u →
      (r.retireTwoValid = true → r.retireTwoPc = u.ss.pc) ∧
        ∀ t, u.checkTwo tohostAddr handleSyscall r = .ok t →
          PortTwoMatched tohostAddr handleSyscall t rs := by
  constructor
  · intro h u hu
    refine ⟨h [] r m u (by simp) rfl hu, ?_⟩
    intro t ht js q t' u' hpre hrun hone
    refine h (r :: js) q t' u' ?_ ?_ hone
    · simpa using hpre
    · rw [run_cons, cycle_of_ok hu ht]
      exact hrun
  · intro h js q t u hpre hrun hone hv
    cases js with
    | nil =>
        cases hrun
        obtain rfl : q = r := by simpa using hpre
        exact (h u hone).1 hv
    | cons r' js =>
        obtain ⟨rfl, hpre'⟩ : r' = r ∧ js ++ [q] <+: rs := by simpa using hpre
        rw [run_cons] at hrun
        cases hc : m.cycle tohostAddr handleSyscall r' with
        | error e =>
            rw [hc] at hrun
            cases hrun
        | ok t' =>
            rw [hc] at hrun
            obtain ⟨u', hu', ht'⟩ := ok_of_cycle hc
            exact (h u' hu').2 t' ht' js q t u hpre' hrun hone hv

/-- **The interpreter has followed the retired path** as long as port two is matched. -/
theorem follow_of_run (hm : PortTwoMatched tohostAddr handleSyscall m rs)
    (h : m.run tohostAddr handleSyscall rs = .ok t) :
    follow tohostAddr handleSyscall m.ss (path rs) = some t.ss := by
  induction rs generalizing m with
  | nil =>
      cases h
      rfl
  | cons r rs ih =>
      rw [run_cons] at h
      cases hc : m.cycle tohostAddr handleSyscall r with
      | error e =>
          rw [hc] at h
          cases h
      | ok t' =>
          rw [hc] at h
          obtain ⟨u, hu, ht'⟩ := ok_of_cycle hc
          obtain ⟨hp, hrs⟩ := portTwoMatched_cons.mp hm u hu
          rw [path_cons, follow_append, follow_of_checkOne hu, Option.bind_some, follow_append,
            follow_of_checkTwo hp ht', Option.bind_some]
          exact ih (hrs t' ht') h

/-- **A departure is reported** as long as port two is matched. -/
theorem run_of_departs (hm : PortTwoMatched tohostAddr handleSyscall m rs)
    (h : Departs tohostAddr handleSyscall m.ss (path rs)) :
    m.run tohostAddr handleSyscall rs = .error .mismatch := by
  induction rs generalizing m with
  | nil => exact absurd h not_departs_nil
  | cons r rs ih =>
      have hone : m.checkOne tohostAddr handleSyscall r = .error .mismatch →
          m.run tohostAddr handleSyscall (r :: rs) = .error .mismatch := by
        intro he
        rw [run_cons, cycle, he]
        rfl
      rw [path_cons] at h
      obtain h | ⟨v, hv, h⟩ := h.of_append
      · -- port one leaves the path, and says so
        apply hone
        unfold Retirement.one at h
        split_ifs at h with hval
        · exact checkOne_eq_mismatch.mpr ⟨hval, .inl (departs_singleton.mp h)⟩
        · exact absurd h not_departs_nil
      obtain he | ⟨u, hu, rfl⟩ := checkOne_of_follow hv
      · exact hone he
      obtain ⟨hp, hrs⟩ := portTwoMatched_cons.mp hm u hu
      obtain h | ⟨w, hw, h⟩ := h.of_append
      · -- port two leaves the path, which the condition excludes
        unfold Retirement.two at h
        split_ifs at h with hval
        · exact absurd (hp hval) (departs_singleton.mp h)
        · exact absurd h not_departs_nil
      · obtain ⟨t', ht', rfl⟩ := checkTwo_of_follow hw
        rw [run_cons, cycle_of_ok hu ht']
        exact ih (hrs t' ht') h

/-- **Where port two is not matched, the loop goes on** over a path that has left the
interpreter's. -/
theorem exists_silent_departure (hm : ¬PortTwoMatched tohostAddr handleSyscall m rs) :
    ∃ js t, js <+: rs ∧ m.run tohostAddr handleSyscall js = .ok t ∧
      Departs tohostAddr handleSyscall m.ss (path js) := by
  induction rs generalizing m with
  | nil =>
      refine absurd ?_ hm
      intro js r t u hpre
      simp at hpre
  | cons r rs ih =>
      rw [portTwoMatched_cons] at hm
      push Not at hm
      obtain ⟨u, hu, hm⟩ := hm
      have hone := follow_of_checkOne hu
      by_cases hp : r.retireTwoValid = true → r.retireTwoPc = u.ss.pc
      · obtain ⟨t, ht, hrs⟩ := hm hp
        obtain ⟨js, t', hpre, hrun, hdep⟩ := ih hrs
        refine ⟨r :: js, t', by simpa using hpre, ?_, ?_⟩
        · rw [run_cons, cycle_of_ok hu ht]
          exact hrun
        · rw [path_cons]
          exact (hdep.append_left (follow_of_checkTwo hp ht)).append_left hone
      · push Not at hp
        obtain ⟨hv, hne⟩ := hp
        refine ⟨[r], u.writeTwo r, by simp, ?_, ?_⟩
        · rw [run_cons, cycle_of_ok hu (checkTwo_of_ne hne)]
          rfl
        · rw [path_cons, Retirement.two, if_pos hv]
          exact (departs_singleton.mpr hne |>.append_right _).append_left hone

/-- A run of the loop ends in a report exactly when port one's comparison has failed. -/
theorem run_eq_mismatch : m.run tohostAddr handleSyscall rs = .error .mismatch ↔
    PortOneMismatches tohostAddr handleSyscall m rs := by
  constructor
  · intro h
    induction rs generalizing m with
    | nil => cases h
    | cons r rs ih =>
        rw [run_cons] at h
        cases hc : m.cycle tohostAddr handleSyscall r with
        | error e =>
            rw [hc] at h
            cases h
            exact ⟨[], r, m, by simp, rfl, checkOne_eq_mismatch.mp (checkOne_of_cycle hc)⟩
        | ok t =>
            rw [hc] at h
            obtain ⟨js, q, t', hpre, hrun, hmis⟩ := ih h
            refine ⟨r :: js, q, t', by simpa using hpre, ?_, hmis⟩
            rw [run_cons, hc]
            exact hrun
  · rintro ⟨js, r, t, ⟨ks, rfl⟩, hrun, hmis⟩
    have hone := checkOne_eq_mismatch.mpr hmis
    rw [List.append_assoc, run_append, hrun, Except.bind, List.singleton_append, run_cons, cycle,
      hone]
    rfl

/-- **The lock-step check**: a loop that has not stopped has retired the interpreter's path
exactly when port two is matched in every cycle reached; and every departure is reported by
the next cycle in which port one retires exactly when, at each such cycle, port two has been
matched so far or port one's comparison has failed by then. -/
theorem lockstep_detects_iff (tohostAddr : ℕ) (handleSyscall : Iss → BitVec 64 → Iss)
    (m : Lockstep) (rs : List Retirement) :
    (SilentRunsFollow tohostAddr handleSyscall m rs ↔
      PortTwoMatched tohostAddr handleSyscall m rs) ∧
    (ReportsInTime tohostAddr handleSyscall m rs ↔
      ∀ front last, front ++ [last] <+: rs → last.retireValid = true →
        PortTwoMatched tohostAddr handleSyscall m front ∨
          PortOneMismatches tohostAddr handleSyscall m (front ++ [last])) := by
  refine ⟨⟨?_, ?_⟩, ?_, ?_⟩
  · intro h
    by_contra hm
    obtain ⟨js, t, hpre, hrun, hdep⟩ := exists_silent_departure hm
    have hsome := h js t hpre hrun
    rw [hdep.follow_eq_none] at hsome
    cases hsome
  · intro hm js t hpre hrun
    exact follow_of_run (hm.of_prefix hpre) hrun
  · intro h front last hpre hv
    by_cases hm : PortTwoMatched tohostAddr handleSyscall m front
    · exact .inl hm
    · obtain ⟨js, t, hjs, -, hdep⟩ := exists_silent_departure hm
      obtain ⟨ks, rfl⟩ := hjs
      rw [← run_eq_mismatch]
      exact .inr (h _ last hpre hv (path_append ▸ hdep.append_right _))
  · intro h front last hpre hv hdep
    obtain hm | hm := h front last hpre hv
    · rw [run_append, run_of_departs hm hdep]
      rfl
    · exact run_eq_mismatch.mpr hm

/-- Memory that holds `nop`s from address 0 on. -/
def nops (x : ℕ) : BitVec 8 := if x % 4 = 0 ∧ x < 64 then 0x13 else 0

/-- Both sides at the start of the `nop`s. -/
def atNops : Lockstep := ⟨fun _ => 0, { Iss.initState with mem := nops }⟩

/-- A cycle that retires two pcs and writes no register. -/
def retiresTwo (pc pcTwo : Word) : Retirement :=
  ⟨true, pc, true, pcTwo, false, 0, 0, false, 0, 0⟩

/-- A cycle that retires one pc and writes no register. -/
def retiresOne (pc : Word) : Retirement := ⟨true, pc, false, 0, false, 0, 0, false, 0, 0⟩

/-- On straight-line code the core retires 0 and then 100 on port two, and goes on at 4: no
report. -/
theorem strayPortTwo_unreported :
    ¬SilentRunsFollow 1024 (fun s _ => s) atNops [retiresTwo 0 100, retiresOne 4] ∧
      ¬ReportsInTime 1024 (fun s _ => s) atNops [retiresTwo 0 100, retiresOne 4] := by
  have hdep : Departs 1024 (fun s _ => s) atNops.ss (path [retiresTwo 0 100]) :=
    ⟨[0], 100, [], _, rfl, rfl, by decide⟩
  have hrun : ∃ t, atNops.run 1024 (fun s _ => s) [retiresTwo 0 100, retiresOne 4] = .ok t :=
    ⟨_, rfl⟩
  obtain ⟨t, ht⟩ := hrun
  constructor
  · intro h
    have hnone := (hdep.append_right [4]).follow_eq_none
    exact absurd (hnone.symm.trans (h _ t (List.prefix_refl _) ht)) (by simp)
  · intro h
    have herr := h [retiresTwo 0 100] (retiresOne 4) (List.prefix_refl _) rfl hdep
    rw [List.singleton_append, ht] at herr
    cases herr

end Lockstep

end Rv32Core
