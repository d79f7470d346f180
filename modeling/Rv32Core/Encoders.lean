import Mathlib.Algebra.BigOperators.Intervals
import Rv32Core.FindFirstSet

/-! # The recursive encoders

`count_leading_zeros` and `popcount` are built like `find_first_set`: two instances for the halves
of the input and a base case for four bits.  All three are compared with the position of the most
significant set bit and the number of set bits, for every size. -/

namespace Rv32Core

open Finset

/-- `count_leading_zeros` with `LG_N = k + 2`. -/
def countLeadingZeros : (k : ℕ) → (BitVec (k + 2) → Bool) → BitVec (k + 3)
  | 0, x => if x 3 then 0 else if x 2 then 1 else if x 1 then 2 else if x 0 then 3 else 4
  | k + 1, x =>
      if isZero (upperHalf x) then
        BitVec.twoPow (k + 4) (k + 2) + (countLeadingZeros k (lowerHalf x)).setWidth (k + 4)
      else (countLeadingZeros k (upperHalf x)).cons false

/-- `popcount` with `LG_N = k + 2`. -/
def popcount : (k : ℕ) → (BitVec (k + 2) → Bool) → BitVec (k + 3)
  | 0, x =>
      match x 3, x 2, x 1, x 0 with
      | false, false, false, false => 0
      | false, false, false, true => 1
      | false, false, true, false => 1
      | false, false, true, true => 2
      | false, true, false, false => 1
      | false, true, false, true => 2
      | false, true, true, false => 2
      | false, true, true, true => 3
      | true, false, false, false => 1
      | true, false, false, true => 2
      | true, false, true, false => 2
      | true, false, true, true => 3
      | true, true, false, false => 2
      | true, true, false, true => 3
      | true, true, true, false => 3
      | true, true, true, true => 4
  | k + 1, x => (popcount k (lowerHalf x)).cons false + (popcount k (upperHalf x)).cons false

/-! ### What they compute -/

/-- The most significant set bit. -/
structure TopBit {n : ℕ} (x : BitVec n → Bool) (i : BitVec n) : Prop where
  set : x i = true
  above : ∀ j, i < j → x j = false

/-- The number of set bits. -/
def bitCount {n : ℕ} (x : BitVec n → Bool) : ℕ :=
  ∑ j ∈ range (2 ^ n), (x (BitVec.ofNat n j)).toNat

/-! ### The halves -/

section halves

variable {k : ℕ} {x : BitVec (k + 1) → Bool} {i : BitVec k}

theorem toNat_cons (b : Bool) (i : BitVec k) : (i.cons b).toNat = b.toNat * 2 ^ k + i.toNat := by
  rw [BitVec.toNat_cons', Nat.shiftLeft_eq]

theorem TopBit.upper (h : TopBit (upperHalf x) i) : TopBit x (i.cons true) := by
  refine ⟨h.set, fun j hj => ?_⟩
  obtain ⟨b, j', rfl⟩ : ∃ b j', j = BitVec.cons b j' := ⟨_, _, (BitVec.cons_msb_setWidth j).symm⟩
  have := j'.isLt
  rw [BitVec.lt_def, toNat_cons, toNat_cons] at hj
  cases b
  · simp only [Bool.toNat_true, Bool.toNat_false] at hj
    omega
  · exact h.above j' (BitVec.lt_def.mpr (by omega))

theorem TopBit.lower (h : TopBit (lowerHalf x) i) (hu : isZero (upperHalf x) = true) :
    TopBit x (i.cons false) := by
  refine ⟨h.set, fun j hj => ?_⟩
  obtain ⟨b, j', rfl⟩ : ∃ b j', j = BitVec.cons b j' := ⟨_, _, (BitVec.cons_msb_setWidth j).symm⟩
  rw [BitVec.lt_def, toNat_cons, toNat_cons] at hj
  cases b
  · exact h.above j' (BitVec.lt_def.mpr (by omega))
  · exact isZero_iff.mp hu j'

theorem ofNat_cons (b : Bool) {j : ℕ} (hj : j < 2 ^ k) :
    BitVec.ofNat (k + 1) (b.toNat * 2 ^ k + j) = (BitVec.ofNat k j).cons b := by
  apply BitVec.eq_of_toNat_eq
  rw [toNat_cons, BitVec.toNat_ofNat, BitVec.toNat_ofNat, Nat.mod_eq_of_lt hj]
  apply Nat.mod_eq_of_lt
  cases b <;> simp only [Bool.toNat_true, Bool.toNat_false] <;> omega

theorem bitCount_halves : bitCount x = bitCount (lowerHalf x) + bitCount (upperHalf x) := by
  have hlow : ∀ j ∈ range (2 ^ k), (x (BitVec.ofNat (k + 1) j)).toNat =
      (lowerHalf x (BitVec.ofNat k j)).toNat := by
    intro j hj
    rw [lowerHalf, ← ofNat_cons false (mem_range.mp hj), Bool.toNat_false, zero_mul, zero_add]
  have hup : ∀ j ∈ range (2 ^ k), (x (BitVec.ofNat (k + 1) (2 ^ k + j))).toNat =
      (upperHalf x (BitVec.ofNat k j)).toNat := by
    intro j hj
    rw [upperHalf, ← ofNat_cons true (mem_range.mp hj), Bool.toNat_true, one_mul]
  rw [bitCount, pow_succ, mul_two, sum_range_add, sum_congr rfl hlow, sum_congr rfl hup]
  rfl

end halves

/-! ### One level -/

section level

variable {k : ℕ}

theorem toNat_half_add {t : BitVec (k + 3)} (h : t.toNat ≤ 2 ^ (k + 2)) :
    (BitVec.twoPow (k + 4) (k + 2) + t.setWidth (k + 4)).toNat = 2 ^ (k + 2) + t.toNat := by
  have h4 : 2 ^ (k + 4) = 2 ^ (k + 2) * 2 * 2 := by rw [pow_succ, pow_succ]
  have hp := Nat.two_pow_pos (k + 2)
  rw [BitVec.toNat_add, BitVec.toNat_twoPow, BitVec.toNat_setWidth, Nat.add_mod_mod,
    Nat.mod_add_mod]
  exact Nat.mod_eq_of_lt (by omega)

/-- `{1'b0, t0} + {1'b0, t1}` never overflows. -/
theorem toNat_cons_add_cons (t0 t1 : BitVec (k + 3)) :
    (t0.cons false + t1.cons false).toNat = t0.toNat + t1.toNat := by
  have h0 := t0.isLt
  have h1 := t1.isLt
  rw [BitVec.toNat_add, toNat_cons, toNat_cons, Bool.toNat_false, zero_mul, zero_add, zero_add]
  exact Nat.mod_eq_of_lt (by rw [pow_succ]; omega)

end level

/-! ### The encoders -/

theorem countLeadingZeros_le (k : ℕ) (x : BitVec (k + 2) → Bool) :
    (countLeadingZeros k x).toNat ≤ 2 ^ (k + 2) := by
  induction k with
  | zero =>
      unfold countLeadingZeros
      split_ifs <;> decide
  | succ k ih =>
      have hpow : 2 ^ (k + 1 + 2) = 2 ^ (k + 2) * 2 := pow_succ 2 (k + 2)
      have hl := ih (lowerHalf x)
      have hu := ih (upperHalf x)
      rw [countLeadingZeros]
      split_ifs
      · rw [toNat_half_add hl]
        omega
      · rw [toNat_cons, Bool.toNat_false]
        omega

/-- One level of `count_leading_zeros`, on numbers. -/
theorem countLeadingZeros_succ (k : ℕ) (x : BitVec (k + 3) → Bool) :
    (countLeadingZeros (k + 1) x).toNat =
      if isZero (upperHalf x) then 2 ^ (k + 2) + (countLeadingZeros k (lowerHalf x)).toNat
      else (countLeadingZeros k (upperHalf x)).toNat := by
  rw [countLeadingZeros]
  split_ifs
  · exact toNat_half_add (countLeadingZeros_le k _)
  · rw [toNat_cons, Bool.toNat_false, zero_mul, zero_add]

theorem popcount_succ (k : ℕ) (x : BitVec (k + 3) → Bool) :
    (popcount (k + 1) x).toNat =
      (popcount k (lowerHalf x)).toNat + (popcount k (upperHalf x)).toNat :=
  toNat_cons_add_cons _ _

theorem popcount_eq (k : ℕ) (x : BitVec (k + 2) → Bool) : (popcount k x).toNat = bitCount x := by
  induction k with
  | zero =>
      have hsum : bitCount x = (x 0).toNat + (x 1).toNat + (x 2).toNat + (x 3).toNat := by
        rw [bitCount, show 2 ^ (0 + 2) = 4 from rfl, sum_range_succ, sum_range_succ, sum_range_succ,
          sum_range_one]
        rfl
      rw [hsum, popcount]
      cases x 3 <;> cases x 2 <;> cases x 1 <;> cases x 0 <;> rfl
  | succ k ih => rw [popcount_succ, ih, ih, bitCount_halves (x := x)]

/-- Four bits: the encoders name the most significant one. -/
theorem encoders_four (x : BitVec 2 → Bool) (h : isZero x = false) :
    ∃ i : BitVec 2, TopBit x i ∧ findFirstSet 0 x = i.cons false ∧
      (countLeadingZeros 0 x).toNat = 2 ^ 2 - 1 - i.toNat := by
  have hcases : ∀ i : BitVec 2, i = 0 ∨ i = 1 ∨ i = 2 ∨ i = 3 := by decide
  have habove {i : BitVec 2} (h1 : i < 1 → x 1 = false) (h2 : i < 2 → x 2 = false)
      (h3 : i < 3 → x 3 = false) : ∀ j, i < j → x j = false := by
    intro j hj
    obtain rfl | rfl | rfl | rfl := hcases j
    · exact absurd hj (BitVec.not_lt_zero)
    · exact h1 hj
    · exact h2 hj
    · exact h3 hj
  unfold findFirstSet countLeadingZeros
  cases h3 : x 3
  · cases h2 : x 2
    · cases h1 : x 1
      · cases h0 : x 0
        · obtain ⟨i, hi⟩ := isZero_eq_false_iff.mp h
          obtain rfl | rfl | rfl | rfl := hcases i <;> simp_all
        · exact ⟨0, ⟨h0, habove (fun _ => h1) (fun _ => h2) fun _ => h3⟩, rfl, rfl⟩
      · exact ⟨1, ⟨h1, habove (fun h => absurd h (by decide)) (fun _ => h2) fun _ => h3⟩, rfl, rfl⟩
    · exact ⟨2, ⟨h2, habove (fun h => absurd h (by decide)) (fun h => absurd h (by decide))
        fun _ => h3⟩, rfl, rfl⟩
  · exact ⟨3, ⟨h3, habove (fun h => absurd h (by decide)) (fun h => absurd h (by decide))
      fun h => absurd h (by decide)⟩, rfl, rfl⟩

/-- **The most significant set bit** is what `find_first_set` returns, and the distance from the
top what `count_leading_zeros` returns. -/
theorem encoders_topBit (k : ℕ) (x : BitVec (k + 2) → Bool) (h : isZero x = false) :
    ∃ i : BitVec (k + 2), TopBit x i ∧ findFirstSet k x = i.cons false ∧
      (countLeadingZeros k x).toNat = 2 ^ (k + 2) - 1 - i.toNat := by
  induction k with
  | zero => exact encoders_four x h
  | succ k ih =>
      by_cases hh : isZero (upperHalf x) = true
      · have hl : isZero (lowerHalf x) = false := Bool.eq_false_iff.mpr fun hc => by
          rw [isZero_halves hc hh] at h
          cases h
        obtain ⟨i, hi, hf, hc⟩ := ih _ hl
        have := i.isLt
        refine ⟨i.cons false, hi.lower hh, by simp [findFirstSet, hl, hh, hf], ?_⟩
        rw [countLeadingZeros_succ, if_pos hh, hc, toNat_cons, Bool.toNat_false, pow_succ 2 (k + 2)]
        omega
      · obtain ⟨i, hi, hf, hc⟩ := ih _ ((Bool.not_eq_true _).mp hh)
        refine ⟨i.cons true, hi.upper, by simp [findFirstSet, hh, hf, twoPow_add_setWidth], ?_⟩
        rw [countLeadingZeros_succ, if_neg hh, hc, toNat_cons, Bool.toNat_true, pow_succ 2 (k + 2)]
        omega

/-- Without a set bit both answer at least `N`. -/
theorem encoders_of_isZero (k : ℕ) (x : BitVec (k + 2) → Bool) (h : isZero x = true) :
    2 ^ (k + 2) ≤ (findFirstSet k x).toNat ∧ (countLeadingZeros k x).toNat = 2 ^ (k + 2) := by
  constructor
  · cases k with
    | zero =>
        have h0 := isZero_iff.mp h
        simp only [findFirstSet, h0]
        decide
    | succ k =>
        rw [findFirstSet_of_isZero x h, BitVec.toNat_twoPow]
        exact (Nat.mod_eq_of_lt (Nat.pow_lt_pow_right (by omega) (by omega))).ge
  · induction k with
    | zero =>
        have h0 := isZero_iff.mp h
        simp only [countLeadingZeros, h0]
        decide
    | succ k ih =>
        have hl : isZero (lowerHalf x) = true := isZero_iff.mpr fun i => isZero_iff.mp h _
        have hu : isZero (upperHalf x) = true := isZero_iff.mpr fun i => isZero_iff.mp h _
        rw [countLeadingZeros_succ, if_pos hu, ih _ hl, pow_succ 2 (k + 2)]
        omega

theorem findFirstSet_succ (k : ℕ) (x : BitVec (k + 3) → Bool) (h : isZero x = false) :
    (findFirstSet (k + 1) x).toNat =
      if isZero (upperHalf x) then (findFirstSet k (lowerHalf x)).toNat
      else 2 ^ (k + 2) + (findFirstSet k (upperHalf x)).toNat := by
  by_cases hu : isZero (upperHalf x) = true
  · have hl : isZero (lowerHalf x) = false := Bool.eq_false_iff.mpr fun hc => by
      rw [isZero_halves hc hu] at h
      cases h
    rw [if_pos hu, findFirstSet]
    simp only [hl, hu, Bool.false_and, Bool.not_true, Bool.false_eq_true, if_false]
    rw [toNat_cons, Bool.toNat_false, zero_mul, zero_add]
  · obtain ⟨i, -, hi⟩ := findFirstSet_spec k _ ((Bool.not_eq_true _).mp hu)
    rw [if_neg hu, findFirstSet]
    simp only [hu, Bool.and_false, Bool.not_false, Bool.false_eq_true, if_false, if_true]
    refine toNat_half_add ?_
    rw [hi, toNat_cons, Bool.toNat_false, zero_mul, zero_add]
    exact i.isLt.le

/-- **The recursive encoders**, for every `LG_N = k + 2`: `find_first_set` returns the index of the
most significant set bit, or at least `N` when there is none; `count_leading_zeros` returns
`N - 1` minus that index, or `N`; `popcount` returns the number of set bits.  The equations of the
recursive case hold for the numbers themselves, so no sum is truncated. -/
theorem recursive_encoders (k : ℕ) :
    (∀ x : BitVec (k + 2) → Bool,
      (isZero x = false → ∃ i, TopBit x i ∧ (findFirstSet k x).toNat = i.toNat ∧
        (countLeadingZeros k x).toNat = 2 ^ (k + 2) - 1 - i.toNat) ∧
      (isZero x = true → 2 ^ (k + 2) ≤ (findFirstSet k x).toNat ∧
        (countLeadingZeros k x).toNat = 2 ^ (k + 2)) ∧
      (popcount k x).toNat = bitCount x) ∧
    ∀ x : BitVec (k + 3) → Bool,
      (isZero x = false → (findFirstSet (k + 1) x).toNat =
        if isZero (upperHalf x) then (findFirstSet k (lowerHalf x)).toNat
        else 2 ^ (k + 2) + (findFirstSet k (upperHalf x)).toNat) ∧
      ((countLeadingZeros (k + 1) x).toNat =
        if isZero (upperHalf x) then 2 ^ (k + 2) + (countLeadingZeros k (lowerHalf x)).toNat
        else (countLeadingZeros k (upperHalf x)).toNat) ∧
      (popcount (k + 1) x).toNat =
        (popcount k (lowerHalf x)).toNat + (popcount k (upperHalf x)).toNat := by
  refine ⟨fun x => ⟨fun h => ?_, encoders_of_isZero k x, popcount_eq k x⟩, fun x =>
    ⟨findFirstSet_succ k x, countLeadingZeros_succ k x, popcount_succ k x⟩⟩
  obtain ⟨i, hi, hf, hc⟩ := encoders_topBit k x h
  refine ⟨i, hi, ?_, hc⟩
  rw [hf, toNat_cons, Bool.toNat_false, zero_mul, zero_add]

/-- Of the bits 5 and 17 of a 64-bit input the encoders see 17. -/
theorem recursive_encoders_two : ∃ i, TopBit (fun i : BitVec 6 => i == 5 || i == 17) i ∧
    (findFirstSet 4 fun i => i == 5 || i == 17).toNat = i.toNat ∧
    (countLeadingZeros 4 fun i => i == 5 || i == 17).toNat = 2 ^ 6 - 1 - i.toNat :=
  ((recursive_encoders 4).1 _).1 (by decide)

end Rv32Core
