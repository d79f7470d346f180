import Mathlib.Algebra.Order.Ring.Nat
import Mathlib.Order.Nat
import Mathlib.Data.Nat.Find
import Rv32Core.Lib.Clocked

/-! # Infinite runs

A trace is an infinite run of a synchronous machine, given by its states and inputs.  Progress
is stated with plain quantifiers over time (`∃ m ≥ n, …`) and proved from two rules: a
situation that persists until an event the trace promises meets that event (`exists_of_stays`),
and what comes closer at each round is reached (`exists_of_decreasing`). -/

namespace Clocked

variable {σ ι : Type*}

/-- An infinite run from reset. -/
structure Trace (M : Machine σ ι) where
  st : ℕ → σ
  inp : ℕ → ι
  start : M.reset (st 0)
  next : ∀ n, st (n + 1) = M.step (st n) (inp n)

namespace Trace

variable {M : Machine σ ι} {env : σ → ι → Prop}

/-- The trace of a stream of inputs. -/
def ofInputs (M : Machine σ ι) {s : σ} (h : M.reset s) (inp : ℕ → ι) : Trace M where
  st n := Nat.rec s (fun k x => M.step x (inp k)) n
  inp := inp
  start := h
  next _ := rfl

theorem reach (T : Trace M) (h : ∀ n, env (T.st n) (T.inp n)) (n : ℕ) :
    M.Reach env (T.st n) := by
  induction n with
  | zero => exact .reset T.start
  | succ n ih => rw [T.next]; exact .step ih (h n)

end Trace

/-! ### Progress -/

theorem exists_of_stays {P Q : ℕ → Prop} {n : ℕ} (hp : P n)
    (hs : ∀ k, n ≤ k → P k → ¬Q k → P (k + 1)) (hq : ∃ m ≥ n, Q m) : ∃ m ≥ n, P m ∧ Q m := by
  classical
  have hex : ∃ d, Q (n + d) := by
    obtain ⟨m, hm, hQ⟩ := hq
    exact ⟨m - n, by rwa [Nat.add_sub_cancel' hm]⟩
  refine ⟨n + Nat.find hex, Nat.le_add_right _ _, ?_, Nat.find_spec hex⟩
  have hlt : ∀ d, d ≤ Nat.find hex → P (n + d) := fun d hd => by
    induction d with
    | zero => exact hp
    | succ d ih => exact hs _ (Nat.le_add_right _ _) (ih (by omega)) (Nat.find_min hex hd)
  exact hlt _ le_rfl

/-- A goal that is reached or comes closer again and again is reached. -/
theorem exists_of_decreasing {P Q : ℕ → Prop} (μ : ℕ → ℕ)
    (hs : ∀ k, P k → ∃ m ≥ k, Q m ∨ (P m ∧ μ m < μ k)) {n : ℕ} (hp : P n) : ∃ m ≥ n, Q m := by
  induction hk : μ n using Nat.strong_induction_on generalizing n with
  | _ v ih =>
      obtain ⟨m, hm, hq | ⟨hpm, hlt⟩⟩ := hs n hp
      · exact ⟨m, hm, hq⟩
      · obtain ⟨m', hm', hq⟩ := ih _ (hk ▸ hlt) hpm rfl
        exact ⟨m', hm.trans hm', hq⟩

end Clocked
