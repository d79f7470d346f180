import Mathlib.Algebra.Order.Ring.Nat
import Mathlib.Tactic.Ring

/-! # Restoring division

Division of an `w`-bit number by shift and subtract.  One register of `2 * w` bits holds the
partial remainder above the dividend bits not yet consumed; a step doubles it and, when the
divisor placed in the upper half fits, subtracts it there and appends a one to the quotient,
else a zero.  The invariant `Inv` relates the register and the quotient after `k` steps, also for
a zero divisor. -/

namespace Restoring

/-- The register after one step; `d` is the divisor, `r` the register. -/
def next (w d r : ℕ) : ℕ := if d * 2 ^ w ≤ 2 * r then 2 * r - d * 2 ^ w else 2 * r

/-- The quotient bit of the step. -/
def bit (w d r : ℕ) : ℕ := if d * 2 ^ w ≤ 2 * r then 1 else 0

/-- What holds after `k` steps of dividing `n` by `d`. -/
structure Inv (w n d k r q : ℕ) : Prop where
  balance : r + q * d * 2 ^ w = 2 ^ k * n
  small : 0 < d → r < d * 2 ^ w
  width : r < 2 ^ (w + k)
  bits : q < 2 ^ k
  /-- A zero divisor always fits. -/
  ones : d = 0 → q + 1 = 2 ^ k

variable {w n d k r q : ℕ}

theorem Inv.init (hn : n < 2 ^ w) : Inv w n d 0 n 0 where
  balance := by rw [zero_mul, zero_mul, pow_zero, one_mul, add_zero]
  small := fun hd => lt_of_lt_of_le hn (Nat.le_mul_of_pos_left _ hd)
  width := hn
  bits := Nat.one_pos
  ones := fun _ => rfl

/-- **One step.** -/
theorem Inv.step (h : Inv w n d k r q) : Inv w n d (k + 1) (next w d r) (2 * q + bit w d r) := by
  have hb := h.balance
  have hp : 2 ^ (k + 1) * n = 2 * (2 ^ k * n) := by rw [pow_succ]; ring
  have hw : 2 ^ (w + (k + 1)) = 2 * 2 ^ (w + k) := by rw [← add_assoc, pow_succ, mul_comm]
  have hk : 2 ^ (k + 1) = 2 * 2 ^ k := by rw [pow_succ, mul_comm]
  have hwidth := h.width
  have hbits := h.bits
  unfold next bit
  by_cases hc : d * 2 ^ w ≤ 2 * r
  · rw [if_pos hc, if_pos hc]
    have hq : (2 * q + 1) * d * 2 ^ w = 2 * (q * d * 2 ^ w) + d * 2 ^ w := by ring
    refine ⟨?_, fun hd => ?_, ?_, ?_, fun hd => ?_⟩
    · omega
    · have := h.small hd
      omega
    · omega
    · omega
    · have := h.ones hd
      omega
  · rw [if_neg hc, if_neg hc]
    have hq : (2 * q + 0) * d * 2 ^ w = 2 * (q * d * 2 ^ w) := by ring
    refine ⟨?_, fun _ => Nat.lt_of_not_le hc, ?_, ?_, fun hd => ?_⟩
    · omega
    · omega
    · omega
    · rw [hd, zero_mul] at hc
      exact absurd (Nat.zero_le _) hc

/-- Doubling the register before step `k < w` does not reach bit `2 * w`. -/
theorem Inv.double_lt (h : Inv w n d k r q) (hk : k < w) : 2 * r < 2 ^ (w + w) := by
  have hwidth := h.width
  have hle : 2 ^ (w + k + 1) ≤ 2 ^ (w + w) := Nat.pow_le_pow_right (by omega) (by omega)
  rw [pow_succ] at hle
  omega

/-- After `w` steps the upper half of the register is the remainder and the quotient satisfies
the equation of division. -/
theorem Inv.done (h : Inv w n d w r q) : q * d + r / 2 ^ w = n := by
  have hb := h.balance
  have h1 : r = 2 ^ w * (n - q * d) := by
    have e : q * d * 2 ^ w = 2 ^ w * (q * d) := mul_comm _ _
    rw [Nat.mul_sub, ← e]
    omega
  have hle : q * d ≤ n := by
    have e : 2 ^ w * (q * d) ≤ 2 ^ w * n := by
      rw [← hb, mul_comm (2 ^ w)]
      exact Nat.le_add_left _ _
    exact Nat.le_of_mul_le_mul_left e (Nat.two_pow_pos w)
  rw [h1, Nat.mul_div_cancel_left _ (Nat.two_pow_pos w)]
  omega

/-- **The quotient.** -/
theorem Inv.div (h : Inv w n d w r q) (hd : 0 < d) : q = n / d := by
  have he := h.done
  have hr : r / 2 ^ w < d := Nat.div_lt_of_lt_mul (by rw [mul_comm]; exact h.small hd)
  rw [← he, mul_comm q, Nat.mul_add_div hd, Nat.div_eq_of_lt hr, add_zero]

/-- **The remainder**, the dividend for a zero divisor. -/
theorem Inv.mod (h : Inv w n d w r q) : r / 2 ^ w = n % d := by
  have he := h.done
  obtain rfl | hd := Nat.eq_zero_or_pos d
  · rw [Nat.mod_zero, ← he, mul_zero, zero_add]
  · have hr : r / 2 ^ w < d := Nat.div_lt_of_lt_mul (by rw [mul_comm]; exact h.small hd)
    rw [← he, mul_comm q, Nat.mul_add_mod, Nat.mod_eq_of_lt hr]

end Restoring
