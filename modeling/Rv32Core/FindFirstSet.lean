import Rv32Core.Machine

/-! # The recursive priority encoder

`find_first_set` splits its input into halves and prefers the upper one, so it returns the index
of the most significant set bit, and a value with the top bit set when there is none.  The
input is given as a function from bit indices; the parameter `k` stands for `LG_N = k + 2`. -/

namespace Rv32Core

/-- No bit of a vector is set. -/
def isZero {k : ℕ} (x : BitVec k → Bool) : Bool := decide (∀ i, x i = false)

/-- The lower half of a vector, `in[N2-1:0]`. -/
def lowerHalf {k : ℕ} (x : BitVec (k + 1) → Bool) (i : BitVec k) : Bool := x (i.cons false)

/-- The upper half of a vector, `in[N-1:N2]`. -/
def upperHalf {k : ℕ} (x : BitVec (k + 1) → Bool) (i : BitVec k) : Bool := x (i.cons true)

/-- `find_first_set` with `LG_N = k + 2`. -/
def findFirstSet : (k : ℕ) → (BitVec (k + 2) → Bool) → BitVec (k + 3)
  | 0, x =>
      if x 3 then 3 else if x 2 then 2 else if x 1 then 1 else if x 0 then 0 else 7
  | k + 1, x =>
      let loZ := isZero (lowerHalf x)
      let hiZ := isZero (upperHalf x)
      if loZ && hiZ then BitVec.twoPow (k + 4) (k + 3)
      else if !hiZ then
        BitVec.twoPow (k + 4) (k + 2) + (findFirstSet k (upperHalf x)).setWidth (k + 4)
      else (findFirstSet k (lowerHalf x)).cons false

theorem isZero_iff {k : ℕ} {x : BitVec k → Bool} : isZero x = true ↔ ∀ i, x i = false := by
  simp [isZero]

theorem isZero_eq_false_iff {k : ℕ} {x : BitVec k → Bool} :
    isZero x = false ↔ ∃ i, x i = true := by
  simp [isZero]

theorem isZero_halves {k : ℕ} {x : BitVec (k + 1) → Bool} (hl : isZero (lowerHalf x) = true)
    (hh : isZero (upperHalf x) = true) : isZero x = true := by
  rw [isZero_iff] at *
  intro i
  rw [← BitVec.cons_msb_setWidth i]
  cases i.msb
  · exact hl _
  · exact hh _

theorem twoPow_add_setWidth {k : ℕ} (i : BitVec (k + 2)) :
    BitVec.twoPow (k + 4) (k + 2) + (i.cons false).setWidth (k + 4) =
      (i.cons true).cons false := by
  have := i.isLt
  have h4 : 2 ^ (k + 4) = 2 ^ (k + 2) * 2 * 2 := by rw [pow_succ, pow_succ]
  rw [← BitVec.toNat_inj]
  simp only [BitVec.toNat_add, BitVec.toNat_twoPow, BitVec.toNat_setWidth, BitVec.toNat_cons,
    Bool.toNat_false, Bool.toNat_true, Nat.zero_shiftLeft, Nat.zero_or]
  have h5 : 2 ^ (k + 2) % 2 ^ (k + 4) = 2 ^ (k + 2) := Nat.mod_eq_of_lt (by omega)
  have h6 : i.toNat % 2 ^ (k + 4) = i.toNat := Nat.mod_eq_of_lt (by omega)
  rw [h5, h6, Nat.mod_eq_of_lt (by omega), ← Nat.shiftLeft_add_eq_or_of_lt this,
    Nat.one_shiftLeft]

theorem findFirstSet_spec (k : ℕ) (x : BitVec (k + 2) → Bool) (h : isZero x = false) :
    ∃ i : BitVec (k + 2), x i = true ∧ findFirstSet k x = i.cons false := by
  induction k with
  | zero =>
      obtain ⟨i, hi⟩ := isZero_eq_false_iff.mp h
      have h4 : ∀ i : BitVec 2, i = 0 ∨ i = 1 ∨ i = 2 ∨ i = 3 := by decide
      simp only [findFirstSet]
      by_cases h3 : x 3 = true
      · exact ⟨3, h3, by rw [if_pos h3]; rfl⟩
      by_cases h2 : x 2 = true
      · exact ⟨2, h2, by rw [if_neg h3, if_pos h2]; rfl⟩
      by_cases h1 : x 1 = true
      · exact ⟨1, h1, by rw [if_neg h3, if_neg h2, if_pos h1]; rfl⟩
      by_cases h0 : x 0 = true
      · exact ⟨0, h0, by rw [if_neg h3, if_neg h2, if_neg h1, if_pos h0]; rfl⟩
      rcases h4 i with rfl | rfl | rfl | rfl <;> contradiction
  | succ k ih =>
      simp only [findFirstSet]
      by_cases hh : isZero (upperHalf x) = true
      · have hl : isZero (lowerHalf x) = false := by
          by_contra hc
          rw [isZero_halves (Bool.not_eq_false _ |>.mp hc) hh] at h
          cases h
        obtain ⟨i, hi, he⟩ := ih _ hl
        exact ⟨i.cons false, hi, by simp [hl, hh, he]⟩
      · rw [Bool.not_eq_true] at hh
        obtain ⟨i, hi, he⟩ := ih _ hh
        exact ⟨i.cons true, hi, by simp [hh, he, twoPow_add_setWidth]⟩

/-- Without a set bit the 64-bit encoder answers 64, whose low six bits read as register 0. -/
theorem findFirstSet_of_isZero {k : ℕ} (x : BitVec (k + 3) → Bool) (h : isZero x = true) :
    findFirstSet (k + 1) x = BitVec.twoPow (k + 4) (k + 3) := by
  rw [isZero_iff] at h
  have hl : isZero (lowerHalf x) = true := isZero_iff.mpr fun i => h _
  have hh : isZero (upperHalf x) = true := isZero_iff.mpr fun i => h _
  simp [findFirstSet, hl, hh]

end Rv32Core
