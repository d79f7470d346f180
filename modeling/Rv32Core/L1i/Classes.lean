import Rv32Core.L1i.Path

/-! # Predecoded classes

A line and the classes of its words are written together, so what a valid line predicts is what
its words are, whatever the memory held.  The only assumption is that the lower level answers
when it was asked. -/

namespace Rv32Core

namespace L1i

variable {s : L1i} {i : L1iIn}

/-- The classes of a valid line are those of its words. -/
def Coherent (s : L1i) (j : SetIdx) : Prop :=
  s.validArray j = true → s.pdData j = predecodeLine (s.insnArray j)

/-- The lines that instructions are fetched from are coherent; the flush walk establishes it
from the power-up contents. -/
structure ClassesOk (s : L1i) : Prop where
  lines : s.running = true ∨ s.rState = .idle → ∀ j, s.Coherent j
  walk : s.rState = .flushCache → ∀ j, j < s.rCacheIdx → s.Coherent j
  out : s.running = true → s.rValidOut = true → s.rJumpOut = predecodeLine s.rArrayOut

theorem ClassesOk.init (p : L1iPowerUp) : (L1i.init p).ClassesOk := by
  constructor
  · rintro (h | h) <;> cases h
  · intro h
    cases h
  · intro h
    cases h

theorem Coherent.step {j : SetIdx} (hn : s.rState ≠ .flushCache) (h : s.Coherent j) :
    (s.step i).Coherent j := by
  intro hv
  have hv' : s.nValidArray i j = true := hv
  show s.nPdData i j = predecodeLine (s.nInsnArray i j)
  unfold nPdData nInsnArray
  cases hm : i.memRspValid
  · rw [nValidArray_quiet hn hm] at hv'
    exact h hv'
  · by_cases hj : j = setOf s.rMemReqAddr
    · subst hj
      simp only [writeIf_true, Function.update_self]
    · simp only [writeIf_of_ne _ _ _ hj]
      refine h ?_
      simpa [nValidArray, hm, writeIf_apply, hj] using hv'

theorem Coherent.step_walk {j : SetIdx} (hs : s.rState = .flushCache) (hm : i.memRspValid = false)
    (h : j ≠ s.rCacheIdx → s.Coherent j) : (s.step i).Coherent j := by
  intro hv
  have hv' : s.nValidArray i j = true := hv
  rw [nValidArray_walk hs hm, Bool.and_eq_true, decide_eq_true_eq] at hv'
  show s.nPdData i j = predecodeLine (s.nInsnArray i j)
  unfold nPdData nInsnArray
  rw [hm]
  exact h hv'.2 hv'.1

theorem ClassesOk.step (h : s.ClassesOk) (hm : i.memRspValid = true → s.rState = .injectReload) :
    (s.step i).ClassesOk := by
  -- whatever is fetched from next was fetched from before, or the cache was idle
  have hbefore : (s.step i).running = true → s.running = true ∨ s.rState = .idle := fun hr => by
    rw [running_step, Bool.or_eq_true, Bool.and_eq_true] at hr
    rcases hr with hr | hr
    · exact (restartAck_spec hr).1.symm
    · exact .inl hr.1
  have hnot : s.running = true ∨ s.rState = .idle → s.rState ≠ .flushCache := by
    rintro (hr | hr) he
    · rw [running, he] at hr
      cases hr
    · rw [hr] at he
      cases he
  have hquiet : s.rState = .flushCache → i.memRspValid = false := fun hs => by
    by_contra hc
    rw [hm (Bool.not_eq_false _ ▸ hc)] at hs
    cases hs
  have hwalk : s.rState = .flushCache → ∀ j, j ≤ s.rCacheIdx → (s.step i).Coherent j :=
    fun hs j hj => by
      refine .step_walk hs (hquiet hs) fun hne => h.walk hs j ?_
      have hne' : j.toNat ≠ s.rCacheIdx.toNat := fun he => hne (BitVec.eq_of_toNat_eq he)
      rw [BitVec.le_def] at hj
      rw [BitVec.lt_def]
      omega
  constructor
  · rintro (hr | hr) j
    · exact .step (hnot (hbefore hr)) (h.lines (hbefore hr) j)
    · rcases nState_idle hr with hs | ⟨hs, hlast⟩
      · exact .step (hnot (.inr hs)) (h.lines (.inr hs) j)
      · refine hwalk hs j ?_
        have hlt := j.isLt
        rw [hlast, BitVec.le_def]
        show j.toNat ≤ 4095
        omega
  · intro hr j hj
    have hj' : j < (s.ctl i).tCacheIdx := hj
    rcases nState_flushCache hr with hz | ⟨hs, hlast, hnext⟩
    · rw [hz] at hj'
      exact absurd hj' BitVec.not_lt_zero
    · refine hwalk hs j ?_
      rw [hnext, BitVec.lt_def, BitVec.toNat_add, show (1 : SetIdx).toNat = 1 from rfl] at hj'
      rw [BitVec.le_def]
      have hlt := s.rCacheIdx.isLt
      omega
  · intro hr hv
    exact h.lines (hbefore hr) _ hv

theorem ClassesOk.hit (h : s.ClassesOk) (hs : s.rState = .active) (hh : s.tHit = true) :
    s.rJumpOut = predecodeLine s.rArrayOut := by
  simp only [tHit, Bool.and_eq_true] at hh
  exact h.out (running_of_active hs) hh.2.1

/-- The first instruction delivered has the class the prediction is made for, and there is no
branch behind it. -/
theorem ClassesOk.pushed (h : s.ClassesOk) {n : ℕ} (hd : s.Delivers i n) :
    ∃ l, s.pushed i = s.tInsn i :: l ∧ predecode (s.tInsn i).data = s.tPd ∧
      ∀ x ∈ l, predecode x.data = 0 := by
  obtain ⟨l, hl⟩ := pushed_of_delivers hd
  refine ⟨l, hl, ?_, fun x hx => ?_⟩
  · rw [tPd, h.hit hd.active hd.hit, selectPd_predecodeLine]
    rfl
  · refine pushed_plain (i := i) (fun hs _ hh => h.hit hs hh) ?_
    rw [hl]
    exact hx

end L1i
end Rv32Core
