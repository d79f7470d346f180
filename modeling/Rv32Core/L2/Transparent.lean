import Rv32Core.Lib.Trace
import Rv32Core.L2.Memory

/-! # Infinite runs of the second-level cache

Main memory answers every request.  Then the cache is idle again and again: `rank` falls in every
cycle except in those that wait for main memory.  A pending request is granted in the first idle
cycle that does not start a flush, or in the next one when the other side is served first.  The
flush handshake can make every idle cycle start a flush; a run in which it does so from some
cycle on is `Starved`, and there a request may wait for ever. -/

namespace Rv32Core

open WriteBack Clocked

namespace L2

variable (s : L2)

/-- How far the cache is from IDLE. -/
def rank : ℕ :=
  match s.rState with
  | .idle => 0
  | .waitStoreIdle => 1
  | .checkValidAndTag => if s.wHit then 2 else 7
  | .dirtyStore => 6
  | .storeTurnaround => 5
  | .cleanReload => 4
  | .waitCleanReload => 3
  | .initialise => 16384 - s.rIdx.toNat
  | .flushWait => 3 * (16383 - s.rIdx.toNat) + 3
  | .flushTriage => 3 * (16383 - s.rIdx.toNat) + 2
  | .flushStore => 3 * (16383 - s.rIdx.toNat) + 1

/-- The states of a flush. -/
def Flushing : Prop :=
  s.rState = .flushWait ∨ s.rState = .flushTriage ∨ s.rState = .flushStore

theorem toNat_next {j : L2Idx} (h : j ≠ 16383) : (j + 1).toNat = j.toNat + 1 ∧ j.toNat < 16383 := by
  have hlt : j.toNat < 16384 := j.isLt
  have hne : j.toNat ≠ 16383 := fun he => h (BitVec.eq_of_toNat_eq he)
  rw [BitVec.toNat_add, show (1 : L2Idx).toNat = 1 from rfl]
  omega

variable {s} {i : L2In}

theorem rank_nextSet {c : L2Ctl} (hc : s.ctl i = s.nextSet c)
    (h : s.rState = .flushTriage ∨ s.rState = .flushStore) : (s.step i).rank < s.rank := by
  have hst : (s.step i).rState = if s.atLast then .idle else .flushWait := congrArg L2Ctl.nState hc
  have hi : (s.step i).rIdx = s.rIdx + 1 := congrArg L2Ctl.tIdx hc
  cases ha : s.atLast with
  | true =>
      rw [ha, if_pos rfl] at hst
      rcases h with h | h <;> simp [rank, hst, h]
  | false =>
      rw [ha, if_neg Bool.false_ne_true] at hst
      obtain ⟨h1, h2⟩ := toNat_next (of_decide_eq_false ha)
      rcases h with h | h <;> simp only [rank, hst, h, hi, h1] <;> omega

theorem flushing_nextSet {c : L2Ctl} (hc : s.ctl i = s.nextSet c) :
    (s.step i).Flushing ∨ ((s.step i).rState = .idle ∧ (s.step i).rFlushReq = false) := by
  have hst : (s.step i).rState = if s.atLast then .idle else .flushWait := congrArg L2Ctl.nState hc
  have hr : (s.step i).rFlushReq = (!s.atLast && c.nFlushReq) := congrArg L2Ctl.nFlushReq hc
  cases ha : s.atLast with
  | true => exact .inr ⟨by rw [hst, ha]; rfl, by rw [hr, ha]; rfl⟩
  | false => exact .inl (.inl (by rw [hst, ha]; rfl))

/-- A flush ends in IDLE with the request latch cleared. -/
theorem Flushing.step (h : s.Flushing) :
    (s.step i).Flushing ∨ ((s.step i).rState = .idle ∧ (s.step i).rFlushReq = false) := by
  have hst : (s.step i).rState = (s.ctl i).nState := rfl
  cases s.move i with
  | wait hw hm hc =>
      have hst' : (s.step i).rState = s.rState := congrArg L2Ctl.nState hc
      exact .inl (by simpa only [Flushing, hst'] using h)
  | drop hs hc => exact .inl (.inr (.inl (by rw [hst, hc])))
  | triageDirty hs hd hc => exact .inl (.inr (.inr (by rw [hst, hc])))
  | triageClean hs hd hc => exact flushing_nextSet hc
  | flushed hs hm hc => exact flushing_nextSet hc
  | _ => simp_all [Flushing]

theorem flushing_of_flushes (hs : s.rState = .idle) (hf : s.flushes i = true) :
    (s.step i).Flushing := by
  have hst : (s.step i).rState = (s.ctl i).nState := rfl
  cases s.move i with
  | flush _ _ hc => exact .inl (by rw [hst, hc])
  | wait hw => simp [Waiting, hs] at hw
  | _ => simp_all

theorem serving_ne_idle (h : s.serving = true) : s.rState ≠ .idle := by
  intro hs
  rw [serving, hs] at h
  cases h

end L2

namespace L2Sys

variable {s : L2Sys} {i : L2In}

/-- **The cache comes closer to IDLE in every cycle** that does not wait for main memory. -/
theorem rank_step (h : s.Inv) (hid : s.l2.rState ≠ .idle)
    (hw : ¬(s.l2.Waiting ∧ i.memRspValid = false)) : (s.l2.step i).rank < s.l2.rank := by
  have hst : (s.l2.step i).rState = (s.l2.ctl i).nState := rfl
  cases s.l2.move i with
  | wait hw' hm hc => exact absurd ⟨hw', hm⟩ hw
  | walk hs hc =>
      have hi : (s.l2.step i).rIdx = s.l2.rIdx + 1 := congrArg L2Ctl.tIdx hc
      rw [hc] at hst
      cases ha : s.l2.atLast with
      | true =>
          have hlt : s.l2.rIdx.toNat < 16384 := s.l2.rIdx.isLt
          simp only [ha, if_true] at hst
          simp only [L2.rank, hst, hs]
          omega
      | false =>
          simp only [ha, Bool.false_eq_true, if_false] at hst
          obtain ⟨h1, h2⟩ := L2.toNat_next (of_decide_eq_false ha)
          simp only [L2.rank, hst, hs, hi, h1]
          omega
  | hitLoad hs hh ho hc =>
      rw [hc] at hst
      simp [L2.rank, hst, hs, hh]
  | hitStore hs hh ho hc =>
      rw [hc] at hst
      simp [L2.rank, hst, hs, hh]
  | hitOther hs hh ho hc =>
      rcases h.op (by rw [L2.serving, hs]) with hl | hl
      · exact absurd hl ho.1
      · exact absurd hl ho.2
  | missDirty hs hh hd hc =>
      rw [hc] at hst
      simp [L2.rank, hst, hs, hh]
  | missClean hs hh hd hc =>
      rw [hc] at hst
      simp [L2.rank, hst, hs, hh]
  | settle hs hc =>
      have hl := lines_of_ctl hc rfl rfl rfl rfl
      have hi : (s.l2.step i).rIdx = s.l2.rIdx := congrArg L2Ctl.tIdx hc
      have ht : (s.l2.step i).rTag = s.l2.rTag := congrArg L2Ctl.nTag hc
      have hp := h.phase
      simp only [L2.Phase, hs] at hp
      have hh : (s.l2.step i).wHit = true := by
        rw [L2.wHit_iff (L2.reads_step hl), hl, hi, ht]
        exact hp.2.2
      rw [hc] at hst
      simp [L2.rank, hst, hs, hh]
  | triageClean hs hd hc => exact L2.rank_nextSet hc (.inl hs)
  | flushed hs hm hc => exact L2.rank_nextSet hc (.inr hs)
  | drop hs hc =>
      have hi : (s.l2.step i).rIdx = s.l2.rIdx := congrArg L2Ctl.tIdx hc
      rw [hc] at hst
      simp only [L2.rank, hst, hs, hi]
      omega
  | triageDirty hs hd hc =>
      have hi : (s.l2.step i).rIdx = s.l2.rIdx := congrArg L2Ctl.tIdx hc
      rw [hc] at hst
      simp only [L2.rank, hst, hs, hi]
      omega
  | rest hs | flush hs | grantL1i hs | grantL1d hs => exact absurd hs hid
  | wroteBack hs hm hc | turn hs hc | loaded hs hm hc | written hs hc =>
      rw [hc] at hst
      simp [L2.rank, hst, hs]

theorem rank_wait (hw : s.l2.Waiting) (hm : i.memRspValid = false) :
    (s.l2.step i).Waiting ∧ (s.l2.step i).rank = s.l2.rank := by
  have hc : s.l2.ctl i = s.l2.dfltCtl i := by
    cases s.l2.move i with
    | wait _ _ hc => exact hc
    | _ => simp_all [L2.Waiting]
  have hst : (s.l2.step i).rState = s.l2.rState := congrArg L2Ctl.nState hc
  have hi : (s.l2.step i).rIdx = s.l2.rIdx := congrArg L2Ctl.tIdx hc
  refine ⟨by simpa only [L2.Waiting, hst] using hw, ?_⟩
  rcases hw with hs | hs | hs <;> simp only [L2.rank, hst, hs, hi]

end L2Sys

/-! ### Runs -/

section Runs

variable (T : Trace l2System)

/-- The cache is idle in cycle `n`. -/
def IdleAt (n : ℕ) : Prop := (T.st n).l2.rState = .idle

/-- The flush handshake fires in cycle `n`. -/
def FiresAt (n : ℕ) : Prop := (T.st n).l2.tL2FlushReq (T.inp n) = true

/-- From some cycle on every idle cycle starts a flush. -/
def Starved : Prop := ∃ k, ∀ m ≥ k, IdleAt T m → FiresAt T m

/-- Main memory answers every request. -/
def MemAnswers : Prop :=
  ∀ n, (T.st n).l2.rMemReq = true → ∃ m ≥ n, (T.inp m).memRspValid = true

variable {T}

theorem st_succ (n : ℕ) : T.st (n + 1) = (T.st n).step (T.inp n) := T.next n

theorem l2_succ (n : ℕ) : (T.st (n + 1)).l2 = (T.st n).l2.step (T.inp n) := by
  rw [st_succ]
  rfl

variable (he : ∀ n, (T.st n).Env (T.inp n)) (hm : MemAnswers T)

include he

theorem inv_at (n : ℕ) : (T.st n).Inv := L2Sys.reach_inv (T.reach he n)

include hm

/-- **The cache is idle again and again.** -/
theorem exists_idle (n : ℕ) : ∃ m ≥ n, IdleAt T m := by
  refine exists_of_decreasing (P := fun _ => True) (fun k => (T.st k).l2.rank) ?_ trivial
  intro k _
  by_cases hid : IdleAt T k
  · exact ⟨k, le_rfl, .inl hid⟩
  by_cases hw : (T.st k).l2.Waiting
  · have hans := hm k ((inv_at he k).memReq.mpr hw)
    obtain ⟨m, hkm, ⟨hwm, hrk⟩, hans⟩ :=
      exists_of_stays (P := fun j => (T.st j).l2.Waiting ∧ (T.st j).l2.rank = (T.st k).l2.rank)
        (Q := fun j => (T.inp j).memRspValid = true) ⟨hw, rfl⟩ (fun j _ hj hno => by
          rw [l2_succ]
          obtain ⟨h1, h2⟩ := L2Sys.rank_wait (i := T.inp j) hj.1 (Bool.eq_false_of_not_eq_true hno)
          exact ⟨h1, h2.trans hj.2⟩) hans
    refine ⟨m + 1, by omega, .inr ⟨trivial, ?_⟩⟩
    have hni : (T.st m).l2.rState ≠ .idle := by rcases hwm with h | h | h <;> simp [h]
    have hlt := L2Sys.rank_step (i := T.inp m) (inv_at he m) hni (by simp [hans])
    rw [l2_succ]
    omega
  · refine ⟨k + 1, by omega, .inr ⟨trivial, ?_⟩⟩
    rw [l2_succ]
    exact L2Sys.rank_step (inv_at he k) hid fun h => hw h.1

/-- The flush handshake aside, some idle cycle takes a request. -/
theorem exists_open (hs : ¬Starved T) (n : ℕ) :
    ∃ m ≥ n, IdleAt T m ∧ (T.st m).l2.flushes (T.inp m) = false := by
  by_contra hno
  have hall : ∀ m ≥ n, IdleAt T m → (T.st m).l2.flushes (T.inp m) = true := by
    intro m hmn hid
    by_contra hf
    exact hno ⟨m, hmn, hid, Bool.eq_false_of_not_eq_true hf⟩
  obtain ⟨m₀, hm₀, hid₀⟩ := exists_idle he hm n
  -- after a flush the request latch is clear, so only the handshake can start the next one
  have hP : ∀ k, m₀ < k → (T.st k).l2.Flushing ∨ (IdleAt T k ∧ (T.st k).l2.rFlushReq = false) := by
    intro k hk
    induction k, hk using Nat.le_induction with
    | base =>
        rw [l2_succ]
        exact .inl (L2.flushing_of_flushes hid₀ (hall m₀ hm₀ hid₀))
    | succ k hk ih =>
        rw [IdleAt, l2_succ]
        rcases ih with hfl | ⟨hid, -⟩
        · exact hfl.step
        · exact .inl (L2.flushing_of_flushes hid (hall k (by omega) hid))
  have hst : ¬∃ k, ∀ m ≥ k, IdleAt T m → FiresAt T m := hs
  push Not at hst
  obtain ⟨m, hmm, hid, hnf⟩ := hst (m₀ + 1)
  rcases hP m hmm with hfl | ⟨-, hr⟩
  · unfold IdleAt at hid
    simp [L2.Flushing, hid] at hfl
  · have := hall m (by omega) hid
    unfold L2.flushes at this
    rw [hr, Bool.false_or] at this
    exact hnf this

theorem exists_finish {n : ℕ} (P : ℕ → Prop) (hP : ∀ k, P k → (T.st k).l2.serving = true)
    (hstep : ∀ k, P k → ¬(T.st k).l2.finishes = true → P (k + 1)) (h : P n) :
    ∃ m ≥ n, P m ∧ (T.st m).l2.finishes = true := by
  refine exists_of_stays h (fun k _ => hstep k) ?_
  by_contra hno
  push Not at hno
  obtain ⟨m, hmn, hid⟩ := exists_idle he hm n
  have hall : ∀ k, n ≤ k → P k := by
    intro k hk
    induction k, hk using Nat.le_induction with
    | base => exact h
    | succ k hk ih => exact hstep k ih (hno k hk)
  exact L2.serving_ne_idle (hP m (hall m hmn)) hid

/-! ### Every request is granted -/

theorem turns_l1i (hs : ¬Starved T) : Handshake.Turns
    (fun m => IdleAt T m ∧ (T.st m).l2.flushes (T.inp m) = false)
    (fun m => (T.st m).l2.wL1iReq (T.inp m) = true) (fun m => (T.st m).l2.grantsL1i (T.inp m) = true)
    (fun m => (T.st m).l2.grantsL1d (T.inp m) = true) (fun m => (T.st m).l2.rLastGnt = true) where
  again := exists_open he hm hs
  waits k hw hno := by
    rw [L2.wL1iReq, l2_succ, L2.step_rL1iReq, hw, Bool.eq_false_of_not_eq_true hno]
    rfl
  serves k hk hw := by
    obtain ⟨hid, hf⟩ := hk
    unfold IdleAt at hid
    simp only [L2.grantsL1i, L2.grantsL1d, L2.gntL1i, hid, hf, hw]
    cases (T.st k).l2.wL1dReq (T.inp k) <;> cases (T.st k).l2.rLastGnt <;> simp
  mine k hk hw ht := by
    obtain ⟨hid, hf⟩ := hk
    unfold IdleAt at hid
    simp [L2.grantsL1i, L2.gntL1i, hid, hf, hw, ht]
  handed k ho _ := by
    rw [l2_succ, L2.step_rLastGnt, ho]
    rfl
  stays k ht hno := by
    rw [l2_succ, L2.step_rLastGnt, ht, Bool.eq_false_of_not_eq_true hno]
    simp

theorem turns_l1d (hs : ¬Starved T) : Handshake.Turns
    (fun m => IdleAt T m ∧ (T.st m).l2.flushes (T.inp m) = false)
    (fun m => (T.st m).l2.wL1dReq (T.inp m) = true) (fun m => (T.st m).l2.grantsL1d (T.inp m) = true)
    (fun m => (T.st m).l2.grantsL1i (T.inp m) = true) (fun m => (T.st m).l2.rLastGnt = false) where
  again := exists_open he hm hs
  waits k hw hno := by
    rw [L2.wL1dReq, l2_succ, L2.step_rL1dReq, hw, Bool.eq_false_of_not_eq_true hno]
    rfl
  serves k hk hw := by
    obtain ⟨hid, hf⟩ := hk
    unfold IdleAt at hid
    simp only [L2.grantsL1i, L2.grantsL1d, hid, hf, hw]
    cases (T.st k).l2.gntL1i (T.inp k) <;> simp
  mine k hk hw ht := by
    obtain ⟨hid, hf⟩ := hk
    unfold IdleAt at hid
    simp [L2.grantsL1d, L2.gntL1i, hid, hf, hw, ht]
  handed k ho hno := by
    rw [l2_succ, L2.step_rLastGnt, ho, Bool.eq_false_of_not_eq_true hno]
    simp
  stays k ht hno := by
    rw [l2_succ, L2.step_rLastGnt, ht, Bool.eq_false_of_not_eq_true hno]
    rfl

/-! ### Every granted request is answered -/

theorem exists_rsp_l1i (hs : ¬Starved T) {n : ℕ} (h : (T.inp n).l1iReq = true) :
    ∃ u, n < u ∧ (T.st u).l2.rL1iRspValid = true := by
  obtain ⟨m, hmn, hg⟩ := (turns_l1i he hm hs).exists_gnt (n := n)
    (by rw [L2.wL1iReq, h, Bool.or_true])
  have hserve : (T.st (m + 1)).l2.servesL1i = true := by
    rw [l2_succ]
    exact (inv_at he m).sides.step_servesL1i.mpr (.inr hg)
  obtain ⟨k, hk, hsk, hf⟩ := exists_finish he hm (fun k => (T.st k).l2.servesL1i = true)
    (fun k hk => (Bool.and_eq_true_iff.mp hk).1) (fun k hk hnf => by
      rw [l2_succ]
      exact (inv_at he k).sides.step_servesL1i.mpr (.inl ⟨hk, hnf⟩)) hserve
  refine ⟨k + 1, by omega, ?_⟩
  rw [l2_succ]
  exact (inv_at he k).sides.step_rL1iRspValid.mpr ⟨hsk, hf⟩

theorem exists_rsp_l1d (hs : ¬Starved T) {n : ℕ} (h : (T.inp n).l1dReq = true) :
    ∃ u, n < u ∧ (T.st u).l2.rL1dRspValid = true := by
  obtain ⟨m, hmn, hg⟩ := (turns_l1d he hm hs).exists_gnt (n := n)
    (by rw [L2.wL1dReq, h, Bool.or_true])
  by_cases hw : (T.inp m).l1dOpcode = .sw
  · refine ⟨m + 1, by omega, ?_⟩
    rw [l2_succ]
    exact L2Sys.step_rL1dRspValid.mpr (.inr ⟨hg, hw⟩)
  have hserve : (T.st (m + 1)).l2.servesL1d = true := by
    rw [l2_succ]
    exact ((inv_at he m).sides.step_servesL1d (he m)).mpr (.inr ⟨hg, hw⟩)
  obtain ⟨k, hk, hsk, hf⟩ := exists_finish he hm (fun k => (T.st k).l2.servesL1d = true)
    (fun k hk => (Bool.and_eq_true_iff.mp hk).1) (fun k hk hnf => by
      rw [l2_succ]
      exact ((inv_at he k).sides.step_servesL1d (he k)).mpr (.inl ⟨hk, hnf⟩)) hserve
  refine ⟨k + 1, by omega, ?_⟩
  rw [l2_succ]
  exact L2Sys.step_rL1dRspValid.mpr (.inl ⟨hsk, hf⟩)

omit hm

/-! ### The links to the first level -/

theorem link {req : L2In → Prop} {rsp out : L2Sys → Prop} (h0 : ∀ s, l2System.reset s → ¬out s)
    (hnext : ∀ s i, out (s.step i) ↔ req i ∨ (out s ∧ ¬rsp s))
    (hone : ∀ s i, s.Env i → req i → ¬(out s ∧ ¬rsp s)) (hasked : ∀ s, s.Inv → rsp s → out s) :
    Handshake.Link (fun n => req (T.inp n)) (fun n => rsp (T.st n)) (fun n => out (T.st n)) where
  start := h0 _ T.start
  next t := by
    rw [st_succ]
    exact hnext _ _
  one t h := hone _ _ (he t) h
  asked t h := hasked _ (inv_at he t) h

theorem link_l1i : Handshake.Link (fun n => (T.inp n).l1iReq = true)
    (fun n => (T.st n).l2.rL1iRspValid = true) (fun n => (T.st n).l1i.isSome = true) :=
  link he (fun _ h0 => by rw [h0.2.1]; exact Bool.false_ne_true) (fun _ _ => L2Sys.nowL1i_isSome)
    (fun _ _ he h => he.l1i_idle h) fun _ hi h => hi.sides.l1i.out_iff.mpr (.inr (.inr h))

theorem link_l1d : Handshake.Link (fun n => (T.inp n).l1dReq = true)
    (fun n => (T.st n).l2.rL1dRspValid = true) (fun n => (T.st n).l1d.isSome = true) :=
  link he (fun _ h0 => by rw [h0.2.2.1]; exact Bool.false_ne_true) (fun _ _ => L2Sys.nowL1d_isSome)
    (fun _ _ he h => he.l1d_idle h) fun _ hi h => hi.sides.l1d.out_iff.mpr (.inr (.inr h))

end Runs

/-! ### A run with one request

The instruction side asks in cycle 0 and main memory answers at once.  With `flush` set the flush
handshake is restarted whenever it is free, and its last answer comes exactly when the cache is
idle: then the request starves. -/

/-- Zeroed registers and memories at power-up. -/
def L2PowerUp.zero : L2PowerUp :=
  ⟨0, fun _ => 0, 0, false, false, fun _ _ => 0, fun _ => 0, fun _ => false, fun _ => false⟩

/-- The system after reset. -/
def L2Sys.zero : L2Sys := ⟨L2.init .zero, fun _ => 0, none, none, memLines fun _ => 0⟩

/-- The inputs in state `s`, with a request `r` of the instruction side. -/
def oneAsks (flush r : Bool) (s : L2Sys) : L2In where
  l1dReq := false
  l1iReq := r
  l1dAddr := 0
  l1iAddr := 0
  l1dOpcode := .lw
  l1MemReqStoreData := 0
  l1iFlushReq := false
  l1dFlushReq := flush && decide (s.l2.rFlushState = .waitForFlush)
  l1iFlushComplete := false
  l1dFlushComplete := flush && decide (s.l2.rState = .idle)
  memRspValid := s.l2.rMemReq
  memRspLoadData := s.mem (blockNo s.l2.rAddr)

/-- The states of the run. -/
def oneAsksSt (flush : Bool) : ℕ → L2Sys
  | 0 => .zero
  | n + 1 => (oneAsksSt flush n).step (oneAsks flush (n == 0) (oneAsksSt flush n))

/-- The run. -/
def oneAsksRun (flush : Bool) : Trace l2System where
  st := oneAsksSt flush
  inp n := oneAsks flush (n == 0) (oneAsksSt flush n)
  start := ⟨⟨_, rfl⟩, rfl, rfl, rfl⟩
  next _ := rfl

theorem oneAsks_asked (flush : Bool) (n : ℕ) : ((oneAsksRun flush).st n).l1d = none ∧
    ∀ a, ((oneAsksRun flush).st n).l1i = some a → a = 0 := by
  induction n with
  | zero => exact ⟨rfl, fun a ha => by cases ha⟩
  | succ n ih =>
      obtain ⟨hd, hi⟩ := ih
      constructor
      · show (if false = true then some ⟨0, .lw, 0⟩ else ((oneAsksRun flush).st n).openL1d) = none
        rw [if_neg Bool.false_ne_true, L2Sys.openL1d, hd, ite_self]
      · intro a ha
        have ha' : (if (n == 0) = true then some 0 else ((oneAsksRun flush).st n).openL1i) =
            some a := ha
        by_cases hn : (n == 0) = true
        · rw [if_pos hn] at ha'
          exact (Option.some.inj ha').symm
        · rw [if_neg hn, L2Sys.openL1i] at ha'
          split at ha'
          · cases ha'
          · exact hi a ha'

theorem oneAsksRun_env (flush : Bool) (n : ℕ) :
    ((oneAsksRun flush).st n).Env ((oneAsksRun flush).inp n) := by
  have hnext := oneAsks_asked flush (n + 1)
  refine ⟨?_, ?_, fun h => ?_, fun h => ?_, fun q hq => ?_, fun h => h, fun _ _ => rfl⟩
  · intro h
    cases n with
    | zero => rfl
    | succ n => cases h
  · intro a ha
    exact (hnext.2 a ha).symm
  · cases h
  · cases h
  · have hq' : ((oneAsksRun flush).st (n + 1)).l1d = some q := hq
    rw [hnext.1] at hq'
    cases hq'

theorem oneAsksRun_memAnswers (flush : Bool) : MemAnswers (oneAsksRun flush) :=
  fun n h => ⟨n, le_rfl, h⟩

/-- What the starving run keeps. -/
structure Starving (s : L2Sys) : Prop where
  state : s.l2.rState = .initialise ∨ s.l2.rState = .idle ∨ s.l2.Flushing
  handshake : (s.l2.rFlushState = .waitForFlush ∧ s.l2.rNeedL1d = false ∧
      s.l2.rState = .flushWait) ∨
    (s.l2.rFlushState = .waitForL1FlushDone ∧ s.l2.rNeedL1d = true)
  need : s.l2.rNeedL1i = false
  asked : s.l2.rL1iReq = true
  silent : s.l2.rL1iRspValid = false
  l1i : s.l1i = some 0
  l1d : s.l1d = none

theorem Starving.flushes {s : L2Sys} (h : Starving s) (hs : s.l2.rState = .idle) :
    s.l2.flushes (oneAsks true false s) = true := by
  rcases h.handshake with ⟨-, -, hs'⟩ | ⟨hf, hn⟩
  · rw [hs] at hs'
    cases hs'
  · simp [L2.flushes, L2.tL2FlushReq, L2.nNeedL1d, L2.nNeedL1i, L2.needL1i, oneAsks, hf, hn, hs,
      h.need]

theorem Starving.step {s : L2Sys} (h : Starving s) : Starving (s.step (oneAsks true false s)) := by
  have hng : s.l2.grantsL1i (oneAsks true false s) = false := by
    by_cases hs : s.l2.rState = .idle
    · simp [L2.grantsL1i, h.flushes hs]
    · simp [L2.grantsL1i, hs]
  have hnf : s.l2.finishes = false := by
    rcases h.state with hs | hs | hs | hs | hs <;> simp [L2.finishes, hs]
  have hst : (s.l2.step (oneAsks true false s)).rState =
      (s.l2.ctl (oneAsks true false s)).nState := rfl
  refine ⟨?_, ?_, ?_, ?_, ?_, ?_, ?_⟩
  · show (s.l2.step (oneAsks true false s)).rState = .initialise ∨
      (s.l2.step (oneAsks true false s)).rState = .idle ∨ (s.l2.step (oneAsks true false s)).Flushing
    rcases h.state with hs | hs | hs
    · cases s.l2.move (oneAsks true false s) with
      | walk _ hc =>
          rw [hst, hc]
          cases s.l2.atLast with
          | true => exact .inr (.inl rfl)
          | false => exact .inl rfl
      | wait hw => simp [L2.Waiting, hs] at hw
      | _ => simp_all
    · exact .inr (.inr (L2.flushing_of_flushes hs (h.flushes hs)))
    · exact .inr (hs.step.symm.imp And.left id)
  · show ((s.l2.nFlushState (oneAsks true false s)) = .waitForFlush ∧
        s.l2.nNeedL1d (oneAsks true false s) = false ∧
        (s.l2.step (oneAsks true false s)).rState = .flushWait) ∨
      (s.l2.nFlushState (oneAsks true false s) = .waitForL1FlushDone ∧
        s.l2.nNeedL1d (oneAsks true false s) = true)
    rcases h.handshake with ⟨hf, hn, hs⟩ | ⟨hf, hn⟩
    · right
      simp [L2.nFlushState, L2.nNeedL1d, L2.needL1d, oneAsks, hf]
    · by_cases hs : s.l2.rState = .idle
      · left
        refine ⟨?_, ?_, ?_⟩
        · simp [L2.nFlushState, L2.tL2FlushReq, L2.nNeedL1d, L2.nNeedL1i, L2.needL1i,
            oneAsks, hf, hn, hs, h.need]
        · simp [L2.nNeedL1d, oneAsks, hf, hn, hs]
        · cases s.l2.move (oneAsks true false s) with
          | flush _ _ hc => rw [hst, hc]
          | wait hw => simp [L2.Waiting, hs] at hw
          | _ => simp_all [h.flushes hs]
      · right
        simp [L2.nFlushState, L2.tL2FlushReq, L2.nNeedL1d, L2.needL1d, oneAsks, hf, hn, hs]
  · show s.l2.nNeedL1i (oneAsks true false s) = false
    simp [L2.nNeedL1i, L2.needL1i, oneAsks, h.need]
  · show (s.l2.step (oneAsks true false s)).rL1iReq = true
    rw [L2.step_rL1iReq, hng, L2.wL1iReq, h.asked]
    rfl
  · show (s.l2.step (oneAsks true false s)).rL1iRspValid = false
    rw [L2.step_rL1iRspValid, hnf]
    rfl
  · show s.nowL1i (oneAsks true false s) = some 0
    simp [L2Sys.nowL1i, L2Sys.openL1i, oneAsks, h.silent, h.l1i]
  · show s.nowL1d (oneAsks true false s) = none
    simp [L2Sys.nowL1d, L2Sys.openL1d, oneAsks, h.l1d]

theorem starving_succ (n : ℕ) : Starving ((oneAsksRun true).st (n + 1)) := by
  induction n with
  | zero => exact ⟨.inl rfl, .inr ⟨rfl, rfl⟩, rfl, rfl, rfl, rfl, rfl⟩
  | succ n ih => exact ih.step

theorem starving_silent (u : ℕ) : ((oneAsksRun true).st u).l2.rL1iRspValid = false := by
  cases u with
  | zero => rfl
  | succ u => exact (starving_succ u).silent

/-! ### A transparent memory -/

/-- The answer to the instruction side in cycle `u` is for its request of cycle `t`. -/
def AnswersL1i (T : Trace l2System) : ℕ → ℕ → Prop :=
  Handshake.Answers (fun n => (T.inp n).l1iReq = true) fun n => (T.st n).l2.rL1iRspValid = true

/-- The answer to the data side in cycle `u` is for its request of cycle `t`. -/
def AnswersL1d (T : Trace l2System) : ℕ → ℕ → Prop :=
  Handshake.Answers (fun n => (T.inp n).l1dReq = true) fun n => (T.st n).l2.rL1dRspValid = true

/-- The second-level cache is a transparent memory in the run `T`. -/
structure Transparent (T : Trace l2System) : Prop where
  /-- Each answer to the instruction side is for one request. -/
  l1i_answer : ∀ u, (T.st u).l2.rL1iRspValid = true → ∃! t, AnswersL1i T t u
  /-- Each answer to the data side is for one request. -/
  l1d_answer : ∀ u, (T.st u).l2.rL1dRspValid = true → ∃! t, AnswersL1d T t u
  /-- A request of the instruction side has one answer, unless flushes take every idle cycle. -/
  l1i_request : ∀ t, (T.inp t).l1iReq = true → (∃! u, AnswersL1i T t u) ∨ Starved T
  /-- A request of the data side has one answer, unless flushes take every idle cycle. -/
  l1d_request : ∀ t, (T.inp t).l1dReq = true → (∃! u, AnswersL1d T t u) ∨ Starved T
  /-- The cache is idle again and again. -/
  idle : ∀ n, ∃ m ≥ n, IdleAt T m
  /-- A load of the instruction side carries the bytes stored last. -/
  l1i_load : ∀ n a, (T.st n).l2.rL1iRspValid = true → (T.st n).l1i = some a →
    (T.st n).l2.rRspData = (T.st n).contents (lineNo a)
  /-- A load of the data side carries the bytes stored last. -/
  l1d_load : ∀ n q, (T.st n).l2.rL1dRspValid = true → (T.st n).l1d = some q → q.op = .lw →
    (T.st n).l2.rRspData = (T.st n).contents (lineNo q.addr)
  /-- No second miss after a reload. -/
  no_stop : ∀ n, (T.st n).l2.stops = false
  /-- After a flush nothing is cached and main memory is up to date. -/
  flushed : ∀ n, (T.st n).l2.rFlushComplete = true →
    (∀ j, (T.st n).l2.validRam j = false ∧ (T.st n).l2.dirtyRam j = false) ∧
      (T.st n).contents = memLines (T.st n).mem

/-- **The second-level cache is a transparent memory** in every run in which main memory
answers. -/
theorem l2_transparent (T : Trace l2System) (he : ∀ n, (T.st n).Env (T.inp n))
    (hm : MemAnswers T) : Transparent T where
  l1i_answer _ h := (link_l1i he).answer_unique h
  l1d_answer _ h := (link_l1d he).answer_unique h
  l1i_request _ h := by
    by_cases hs : Starved T
    · exact .inr hs
    · exact .inl ((link_l1i he).request_unique h (exists_rsp_l1i he hm hs h))
  l1d_request _ h := by
    by_cases hs : Starved T
    · exact .inr hs
    · exact .inl ((link_l1d he).request_unique h (exists_rsp_l1d he hm hs h))
  idle := exists_idle he hm
  l1i_load n a hr ha := (L2Sys.reach_loads (T.reach he n)).1.l1i hr a ha
  l1d_load n q hr hq ho := (L2Sys.reach_loads (T.reach he n)).1.l1d hr q hq ho
  no_stop n := (inv_at he n).not_stops
  flushed n h := (inv_at he n).flushed (L2Sys.reach_loads (T.reach he n)).2 h

theorem l2_transparent_oneAsks : Transparent (oneAsksRun false) :=
  l2_transparent _ (oneAsksRun_env false) (oneAsksRun_memAnswers false)

/-- **A request can starve**: not every request of every run has exactly one answer. -/
theorem request_starves : ¬∀ T : Trace l2System, (∀ n, (T.st n).Env (T.inp n)) → MemAnswers T →
    ∀ t, (T.inp t).l1iReq = true → ∃! u, AnswersL1i T t u := by
  intro h
  obtain ⟨u, hu, -⟩ := h (oneAsksRun true) (oneAsksRun_env true) (oneAsksRun_memAnswers true) 0 rfl
  have hr : ((oneAsksRun true).st u).l2.rL1iRspValid = true := hu.2.2.1
  rw [starving_silent u] at hr
  cases hr

end Rv32Core
