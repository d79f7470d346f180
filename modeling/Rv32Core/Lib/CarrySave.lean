import Mathlib.Algebra.BigOperators.Intervals
import Mathlib.Data.BitVec
import Rv32Core.Lib.Bits

/-! # Arrays of carry-save adders

A sum word and a carry word stand for one number, and a row of full adders adds a third word to
it without propagating a carry.  A multiplier built of such rows computes the sum of its partial
products; this module has the value of a chain of rows, the sum of the partial products of an
unsigned product, and what flipping a bit and extending a sign do to a number, which is what a
signed array does with the products of the sign bits. -/

namespace Bits

variable {w : ℕ}

/-! ### Rows -/

/-- A row of full adders takes a word into the pair of sum and carry. -/
def csaRow (sc : BitVec w × BitVec w) (p : BitVec w) : BitVec w × BitVec w :=
  (csaSum sc.1 (sc.2 <<< 1) p, csaCarry sc.1 (sc.2 <<< 1) p)

/-- The number a sum word and a carry word stand for. -/
def csaValue (sc : BitVec w × BitVec w) : BitVec w := sc.1 + sc.2 <<< 1

theorem csaValue_row (sc : BitVec w × BitVec w) (p : BitVec w) :
    csaValue (csaRow sc p) = csaValue sc + p := by
  have h := csa_add sc.1 (sc.2 <<< 1) p
  rw [csaValue, csaRow, BitVec.add_comm, h, csaValue]

/-- **A chain of rows adds its words.** -/
theorem csaValue_foldl (ps : List (BitVec w)) (sc : BitVec w × BitVec w) :
    csaValue (ps.foldl csaRow sc) = csaValue sc + ps.sum := by
  induction ps generalizing sc with
  | nil => simp
  | cons p ps ih => rw [List.foldl_cons, ih, csaValue_row, List.sum_cons, add_assoc]

/-! ### Partial products -/

/-- The partial product of `x` and bit `j` of `y`. -/
def partialProduct (x y : BitVec w) (j : ℕ) : BitVec w := if y.getLsbD j then x <<< j else 0

/-- **The partial products add up to the product** with the bits they cover. -/
theorem sum_partialProduct (x y : BitVec w) (n : ℕ) :
    ∑ j ∈ Finset.range (n + 1), partialProduct x y j = x * (y.setWidth (n + 1)).setWidth w := by
  rw [← BitVec.mulRec_eq_mul_signExtend_setWidth]
  induction n with
  | zero => simp [partialProduct, BitVec.mulRec_zero_eq]
  | succ n ih => rw [Finset.sum_range_succ, ih, BitVec.mulRec_succ_eq, partialProduct]

theorem partialProduct_eq_mul (x y : BitVec w) (j : ℕ) :
    partialProduct x y j = x * (y &&& BitVec.twoPow w j) := by
  rw [partialProduct, BitVec.and_twoPow]
  split_ifs
  · rw [BitVec.mul_twoPow_eq_shiftLeft]
  · simp

/-! ### Signs -/

theorem getLsbD_splice {n : ℕ} (x : BitVec w) (p : BitVec n) {k j : ℕ} (hj : j < w) :
    ((x.extractLsb' (k + n) (w - (k + n)) ++ p ++ x.extractLsb' 0 k).setWidth w).getLsbD j =
      if j < k then x.getLsbD j else if j < k + n then p.getLsbD (j - k) else x.getLsbD j := by
  rw [BitVec.getLsbD_setWidth, BitVec.getLsbD_append, BitVec.getLsbD_append,
    BitVec.getLsbD_extractLsb', BitVec.getLsbD_extractLsb', decide_eq_true hj, Bool.true_and]
  by_cases h : j < k
  · rw [if_pos h, if_pos h, decide_eq_true h, Bool.true_and, Nat.zero_add]
  · by_cases hn : j < k + n
    · rw [if_neg h, if_neg h, if_pos hn, if_pos (by omega)]
    · have hsum : k + n + (j - k - n) = j := by omega
      rw [if_neg h, if_neg h, if_neg hn, if_neg (by omega), hsum, decide_eq_true (by omega),
        Bool.true_and]

/-- Flipping the bits of `y` in `x` adds them where they were clear and subtracts them where they
were set. -/
theorem xor_eq_add_sub (x y : BitVec w) : x ^^^ y = x + y - 2 * (x &&& y) := by
  have h2 : (x &&& y) <<< 1 = 2 * (x &&& y) := by
    apply BitVec.eq_of_toNat_eq
    simp [Nat.shiftLeft_eq, mul_comm]
  rw [add_eq_xor_add_and x y, h2, add_sub_cancel_right]

theorem add_eq_or_of_disjoint {x y : BitVec w}
    (h : ∀ k < w, x.getLsbD k = true → y.getLsbD k = false) : x + y = x ||| y := by
  apply BitVec.add_eq_or_of_and_eq_zero
  apply BitVec.eq_of_getLsbD_eq
  intro k hk
  rw [BitVec.getLsbD_and]
  cases hx : x.getLsbD k
  · simp
  · simp [h k hk hx]

theorem and_add_and_not (x y : BitVec w) : (x &&& y) + (x &&& ~~~y) = x := by
  rw [add_eq_or_of_disjoint]
  · apply BitVec.eq_of_getLsbD_eq
    intro k hk
    rw [BitVec.getLsbD_or, BitVec.getLsbD_and, BitVec.getLsbD_and, BitVec.getLsbD_not,
      decide_eq_true hk]
    cases y.getLsbD k <;> simp
  · intro k _ h
    rw [BitVec.getLsbD_and, Bool.and_eq_true] at h
    simp [h.2]

/-- Extending the sign of a word subtracts twice its sign bit. -/
theorem signExtend_eq_sub {n : ℕ} (x : BitVec n) (w : ℕ) :
    x.signExtend w = x.setWidth w - if x.msb then BitVec.twoPow w n else 0 := by
  have hones : BitVec.allOnes w <<< n = -BitVec.twoPow w n := by
    rw [BitVec.shiftLeft_eq_mul_twoPow, ← BitVec.neg_one_eq_allOnes]
    exact neg_one_mul _
  have hdisj : x.setWidth w &&& (if x.msb then BitVec.allOnes w <<< n else 0#w) = 0#w := by
    apply BitVec.eq_of_getLsbD_eq
    intro j hj
    by_cases h : j < n
    · cases x.msb <;> simp [h]
    · have hx : x.getLsbD j = false := BitVec.getLsbD_of_ge _ _ (by omega)
      cases x.msb <;> simp [hx]
  rw [signExtend_eq_or, ← BitVec.add_eq_or_of_and_eq_zero _ _ hdisj]
  cases x.msb
  · simp
  · rw [if_pos rfl, if_pos rfl, hones, sub_eq_add_neg]

end Bits
