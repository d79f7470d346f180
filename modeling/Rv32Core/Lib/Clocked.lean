import Mathlib.Logic.Function.Basic
import Mathlib.Tactic.Common

/-! # Synchronous machines

A synchronous machine is a reset state and a step function: one step is one rising clock edge,
and the input of a step is what the ports carry in that cycle.  Runs start in the reset state
and are constrained by an environment condition `env s i`, which may look at the state before
the step: it says which inputs the surroundings of the machine may present there.

Every invariant argument of the development is one induction over `Reach`, packaged as
`Reach.invariant`; properties of whole runs (event logs) are invariants of the machine
extended by an observer, `observed`. -/

namespace Clocked

/-- A synchronous machine over states `σ` and input ports `ι`. -/
structure Machine (σ ι : Type*) where
  /-- The states in which a run may start. -/
  reset : σ → Prop
  /-- One rising clock edge. -/
  step : σ → ι → σ

variable {σ ι τ κ : Type*}

namespace Machine

/-- `M.Reach env s`: some run from reset whose inputs all satisfy `env` ends in `s`. -/
inductive Reach (M : Machine σ ι) (env : σ → ι → Prop) : σ → Prop
  | reset {s : σ} : M.reset s → Reach M env s
  | step {s : σ} {i : ι} : Reach M env s → env s i → Reach M env (M.step s i)

/-- The state after a list of inputs. -/
def run (M : Machine σ ι) (s : σ) (is : List ι) : σ := is.foldl M.step s

/-- Every input of the run satisfies the environment condition where it is presented. -/
def Allowed (M : Machine σ ι) (env : σ → ι → Prop) : σ → List ι → Prop
  | _, [] => True
  | s, i :: is => env s i ∧ Allowed M env (M.step s i) is

/-- A run on concrete inputs can be checked by evaluation. -/
instance instDecidableAllowed (M : Machine σ ι) (env : σ → ι → Prop)
    [∀ s i, Decidable (env s i)] :
    ∀ s is, Decidable (M.Allowed env s is)
  | _, [] => .isTrue trivial
  | s, i :: is =>
      have := instDecidableAllowed M env (M.step s i) is
      inferInstanceAs (Decidable (env s i ∧ M.Allowed env (M.step s i) is))

variable {M : Machine σ ι} {env env' : σ → ι → Prop}

@[simp] theorem run_nil (s : σ) : M.run s [] = s := rfl

@[simp] theorem run_cons (s : σ) (i : ι) (is : List ι) :
    M.run s (i :: is) = M.run (M.step s i) is := rfl

theorem run_append (s : σ) (is js : List ι) : M.run s (is ++ js) = M.run (M.run s is) js :=
  List.foldl_append

theorem Allowed.append {s : σ} {is js : List ι} (h : M.Allowed env s is)
    (h' : M.Allowed env (M.run s is) js) : M.Allowed env s (is ++ js) := by
  induction is generalizing s with
  | nil => exact h'
  | cons i is ih => exact ⟨h.1, ih h.2 h'⟩

theorem Allowed.left {s : σ} {is js : List ι} (h : M.Allowed env s (is ++ js)) :
    M.Allowed env s is := by
  induction is generalizing s with
  | nil => exact trivial
  | cons i is ih => exact ⟨h.1, ih h.2⟩

theorem Allowed.of_forall (h : ∀ s i, env s i) (s : σ) (is : List ι) : M.Allowed env s is := by
  induction is generalizing s with
  | nil => exact trivial
  | cons i is ih => exact ⟨h s i, ih _⟩

/-- **Invariant rule**: a property of the reset states that every allowed step preserves holds
of every reachable state. -/
theorem Reach.invariant {P : σ → Prop} (h0 : ∀ s, M.reset s → P s)
    (hs : ∀ s i, P s → env s i → P (M.step s i)) {s : σ} (h : M.Reach env s) : P s := by
  induction h with
  | reset h => exact h0 _ h
  | step _ he ih => exact hs _ _ ih he

theorem Reach.mono (hle : ∀ s i, env s i → env' s i) {s : σ} (h : M.Reach env s) :
    M.Reach env' s := by
  induction h with
  | reset h => exact .reset h
  | step _ he ih => exact .step ih (hle _ _ he)

theorem Reach.run {s : σ} (h : M.Reach env s) {is : List ι} (ha : M.Allowed env s is) :
    M.Reach env (M.run s is) := by
  induction is generalizing s with
  | nil => exact h
  | cons i is ih => exact ih (.step h ha.1) ha.2

/-- Reachability carried along a simulation of machines: `f` maps states to states and `g`
tells, from the state and the input above, the input below. -/
theorem Reach.map {N : Machine τ κ} {env' : τ → κ → Prop} (f : σ → τ) (g : σ → ι → κ)
    (h0 : ∀ s, M.reset s → N.reset (f s))
    (hs : ∀ s i, env s i → f (M.step s i) = N.step (f s) (g s i))
    (he : ∀ s i, M.Reach env s → env s i → env' (f s) (g s i))
    {s : σ} (h : M.Reach env s) : N.Reach env' (f s) := by
  induction h with
  | reset h => exact .reset (h0 _ h)
  | step hr hi ih => rw [hs _ _ hi]; exact .step ih (he _ _ hr hi)

/-- The machine together with an observer `o`, which starts at `o₀` and sees the state before
each step and its input. -/
def observed (M : Machine σ ι) (o₀ : τ) (o : τ → σ → ι → τ) : Machine (σ × τ) ι where
  reset s := M.reset s.1 ∧ s.2 = o₀
  step s i := (M.step s.1 i, o s.2 s.1 i)

theorem Reach.of_observed {o₀ : τ} {o : τ → σ → ι → τ} {s : σ × τ}
    (h : (M.observed o₀ o).Reach (fun s i => env s.1 i) s) : M.Reach env s.1 := by
  induction h with
  | reset h => exact .reset h.1
  | step _ he ih => exact .step ih he

/-- Every run can be observed. -/
theorem Reach.exists_observed (o₀ : τ) (o : τ → σ → ι → τ) {s : σ} (h : M.Reach env s) :
    ∃ t, (M.observed o₀ o).Reach (fun x i => env x.1 i) (s, t) := by
  induction h with
  | reset h => exact ⟨o₀, .reset ⟨h, rfl⟩⟩
  | @step s i _ he ih =>
      obtain ⟨t, ht⟩ := ih
      exact ⟨o t s i, .step (s := (s, t)) ht he⟩

end Machine
end Clocked
