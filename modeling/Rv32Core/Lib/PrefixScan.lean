import Mathlib.Algebra.Group.Nat.Defs
import Mathlib.Tactic.Common

/-! # Parallel prefix

Over an associative operation, the network whose level `l` lets entry `i` take in entry
`i - 2 ^ l`, where there is one.  After `l` levels an entry is the product of the window of the
`2 ^ l` entries that ends in it, clipped at entry 0.

The operation on pairs of a generate and a propagate bit is of this kind, and the product of the
pairs of two words down to bit 0 generates the carry of their sum. -/

namespace PrefixScan

variable {α : Type*} (op : α → α → α) (f : ℕ → α)

/-- The product of the entries `i`, `i - 1`, …, `i - c`. -/
def window (i : ℕ) : ℕ → α
  | 0 => f i
  | c + 1 => op (window i c) (f (i - (c + 1)))

/-- One level with distance `d`. -/
def level (d : ℕ) (g : ℕ → α) (i : ℕ) : α := if d ≤ i then op (g i) (g (i - d)) else g i

/-- The entries after `l` levels. -/
def network : ℕ → ℕ → α
  | 0 => f
  | l + 1 => level op (2 ^ l) (network l)

/-- How far below itself an entry sees after `l` levels. -/
def reach (l i : ℕ) : ℕ := min (2 ^ l - 1) i

theorem reach_zero (i : ℕ) : reach 0 i = 0 := Nat.zero_min i

theorem reach_of_lt {l i : ℕ} (h : i < 2 ^ l) : reach l i = i := by
  have : i ≤ 2 ^ l - 1 := by omega
  exact Nat.min_eq_right this

theorem reach_succ {l i : ℕ} (h : 2 ^ l ≤ i) :
    reach (l + 1) i = 2 ^ l - 1 + 1 + reach l (i - 2 ^ l) := by
  have hp : 2 ^ (l + 1) = 2 * 2 ^ l := Nat.pow_succ'
  have : 0 < 2 ^ l := Nat.two_pow_pos l
  rw [reach, reach, hp]
  omega

/-- An entry that takes nothing in sees bit 0 already. -/
theorem reach_succ_of_lt {l i : ℕ} (h : i < 2 ^ l) : reach (l + 1) i = reach l i := by
  have hp : 2 ^ (l + 1) = 2 * 2 ^ l := Nat.pow_succ'
  rw [reach_of_lt h, reach_of_lt (by omega)]

theorem window_append [ha : Std.Associative op] (i c k : ℕ) :
    op (window op f i c) (window op f (i - (c + 1)) k) = window op f i (c + 1 + k) := by
  induction k with
  | zero => rfl
  | succ k ih =>
      have hi : i - (c + 1) - (k + 1) = i - (c + 1 + k + 1) := by omega
      rw [window, ← ha.assoc, ih, hi]
      rfl

/-- **Parallel prefix**: after `l` levels an entry is the product of its window. -/
theorem network_eq [Std.Associative op] (l i : ℕ) :
    network op f l i = window op f i (reach l i) := by
  induction l generalizing i with
  | zero => rw [reach_zero]; rfl
  | succ l ih =>
      rw [network, level]
      by_cases h : 2 ^ l ≤ i
      · have hp : 0 < 2 ^ l := Nat.two_pow_pos l
        have hr : reach l i = 2 ^ l - 1 := Nat.min_eq_left (by omega)
        have hd : i - (2 ^ l - 1 + 1) = i - 2 ^ l := by omega
        rw [if_pos h, ih, ih, hr, reach_succ h, ← hd]
        exact window_append op f i (2 ^ l - 1) _
      · rw [if_neg h, ih, reach_succ_of_lt (by omega)]

/-! ### Carries -/

/-- Generate and propagate of two groups, the higher one first. -/
def carryOp (hi lo : Bool × Bool) : Bool × Bool := (hi.1 || hi.2 && lo.1, hi.2 && lo.2)

instance : Std.Associative carryOp where
  assoc := by
    rintro ⟨a, a'⟩ ⟨b, b'⟩ ⟨c, c'⟩
    cases a <;> cases a' <;> cases b <;> simp [carryOp]

variable {w : ℕ} (a b : BitVec w)

/-- Generate and propagate of a bit of a sum. -/
def carryBit (i : ℕ) : Bool × Bool :=
  (a.getLsbD i && b.getLsbD i, a.getLsbD i ^^ b.getLsbD i)

theorem carry_step (i : ℕ) : BitVec.carry (i + 1) a b false =
    ((carryBit a b i).1 || (carryBit a b i).2 && BitVec.carry i a b false) := by
  rw [BitVec.carry_succ, carryBit]
  cases a.getLsbD i <;> cases b.getLsbD i <;> cases BitVec.carry i a b false <;> rfl

/-- **The group of the bits `i` to 0 generates the carry out of bit `i`.** -/
theorem window_carry (i : ℕ) :
    (window carryOp (carryBit a b) i i).1 = BitVec.carry (i + 1) a b false := by
  induction i with
  | zero =>
      rw [carry_step, BitVec.carry_zero, Bool.and_false, Bool.or_false]
      rfl
  | succ i ih =>
      have h := window_append carryOp (carryBit a b) (i + 1) 0 i
      have hi : 0 + 1 + i = i + 1 := by omega
      rw [hi] at h
      rw [← h, carry_step, ← ih]
      rfl

end PrefixScan
