import Mathlib.Data.Nat.Bitwise
import Mathlib.Tactic.Common

/-! # Adders, comparators and shifters at the level of bits

Facts about fixed-width words behind common datapath tricks: a carry-save adder followed by an
adder is the sum of its three inputs, comparisons are bits of a difference, and one right
shifter of double width does left, right and arithmetic shifts.  A word assembled from fields by
concatenation is the word assembled from them by shifts, and a shift register holds the last bits
of its history. -/

namespace Bits

variable {w : ℕ}

/-! ### Carry-save addition -/

/-- The sum bits of a row of full adders. -/
def csaSum (a b c : BitVec w) : BitVec w := a ^^^ b ^^^ c

/-- The carry bits of a row of full adders, each at the place of its inputs. -/
def csaCarry (a b c : BitVec w) : BitVec w := a &&& b ||| c &&& (a ^^^ b)

theorem nat_add_eq_xor_add_and (a b : ℕ) : a + b = (a ^^^ b) + 2 * (a &&& b) := by
  induction a using Nat.strongRecOn generalizing b with
  | ind a ih =>
      rcases Nat.eq_zero_or_pos a with rfl | ha
      · simp
      · have h := ih (a / 2) (by omega) (b / 2)
        have hx : (a ^^^ b) / 2 = a / 2 ^^^ b / 2 := Nat.xor_div_two
        have hn : (a &&& b) / 2 = a / 2 &&& b / 2 := Nat.and_div_two
        have hx2 : (a ^^^ b) % 2 = (a + b) % 2 := Nat.xor_mod_two_eq
        have hn2 : (a &&& b) % 2 = 1 ↔ a % 2 = 1 ∧ b % 2 = 1 := Nat.and_mod_two_eq_one
        omega

theorem add_eq_xor_add_and (a b : BitVec w) : a + b = (a ^^^ b) + (a &&& b) <<< 1 := by
  apply BitVec.eq_of_toNat_eq
  rw [BitVec.toNat_add, BitVec.toNat_add, BitVec.toNat_xor, BitVec.toNat_shiftLeft,
    BitVec.toNat_and, Nat.add_mod_mod, Nat.shiftLeft_eq, nat_add_eq_xor_add_and, mul_comm 2]

/-- The two carries of a full adder are never both set. -/
theorem carries_disjoint (a b c : BitVec w) : (a &&& b) &&& (c &&& (a ^^^ b)) = 0#w := by
  have hbool : ∀ x y z : Bool, (x && y && (z && (x ^^ y))) = false := by decide
  ext i hi
  simp only [BitVec.getElem_and, BitVec.getElem_xor, BitVec.getElem_zero]
  exact hbool _ _ _

/-- **Carry-save addition.**  The sum and the shifted carries of three words add up to their
sum. -/
theorem csa_add (a b c : BitVec w) : csaCarry a b c <<< 1 + csaSum a b c = a + b + c := by
  have hc : csaCarry a b c = (a &&& b) + (c &&& (a ^^^ b)) :=
    (BitVec.add_eq_or_of_and_eq_zero _ _ (carries_disjoint a b c)).symm
  have h1 := add_eq_xor_add_and a b
  have h2 := add_eq_xor_add_and (a ^^^ b) c
  calc csaCarry a b c <<< 1 + csaSum a b c
      = (a &&& b) <<< 1 + ((a ^^^ b ^^^ c) + ((a ^^^ b) &&& c) <<< 1) := by
        rw [hc, BitVec.shiftLeft_add_distrib, BitVec.and_comm c, csaSum, BitVec.add_assoc,
          BitVec.add_comm (((a ^^^ b) &&& c) <<< 1)]
    _ = (a &&& b) <<< 1 + ((a ^^^ b) + c) := by rw [h2]
    _ = a + b + c := by rw [h1, ← BitVec.add_assoc, BitVec.add_comm ((a &&& b) <<< 1)]

/-! ### Comparisons -/

theorem add_not_add_one (a b : BitVec w) : a + ~~~b + 1#w = a - b := by
  rw [BitVec.sub_eq_add_neg, BitVec.neg_eq_not_add, BitVec.add_assoc]

theorem getLsbD_sub_setWidth {v : ℕ} (h : w < v) (a b : BitVec w) :
    (a.setWidth v - b.setWidth v).getLsbD w = a.ult b := by
  obtain ⟨k, rfl⟩ : ∃ k, v = w + (k + 1) := ⟨v - w - 1, by omega⟩
  have ha := a.isLt
  have hb := b.isLt
  have hp : 2 ^ (w + (k + 1)) = 2 ^ w * (2 * 2 ^ k) := by rw [Nat.pow_add, Nat.pow_succ']
  have hk : 0 < 2 ^ k := Nat.two_pow_pos k
  have hle : 2 ^ w ≤ 2 ^ (w + (k + 1)) := Nat.pow_le_pow_right (by omega) (by omega)
  rw [BitVec.ult_eq_decide, BitVec.getLsbD, BitVec.toNat_sub,
    BitVec.toNat_setWidth_of_le (by omega), BitVec.toNat_setWidth_of_le (by omega),
    Nat.testBit_eq_decide_div_mod_eq, decide_eq_decide]
  generalize 2 ^ (w + (k + 1)) = p at hp hle ⊢
  rcases Nat.lt_or_ge a.toNat b.toNat with hlt | hge
  · -- the difference is `p` minus a number of width `w`
    have hm : (p - b.toNat + a.toNat) % p = p - (b.toNat - a.toNat) := by
      rw [Nat.mod_eq_of_lt (by omega)]
      omega
    have hd : (p - (b.toNat - a.toNat)) / 2 ^ w = 2 * 2 ^ k - 1 := by
      apply Nat.div_eq_of_lt_le
      · rw [Nat.sub_mul, one_mul, mul_comm, ← hp]
        omega
      · rw [Nat.sub_add_cancel (by omega), mul_comm, ← hp]
        omega
    rw [hm, hd]
    exact iff_of_true (by omega) hlt
  · have hm : (p - b.toNat + a.toNat) % p = a.toNat - b.toNat := by
      have hs : p - b.toNat + a.toNat = (a.toNat - b.toNat) + p := by omega
      rw [hs, Nat.add_mod_right, Nat.mod_eq_of_lt (by omega)]
    rw [hm, Nat.div_eq_of_lt (by omega)]
    exact iff_of_false (by omega) (by omega)

/-- A signed comparison: the sign bits when they differ, else the sign of the difference. -/
theorem slt_eq_sub_msb (a b : BitVec w) :
    a.slt b = if a.msb && !b.msb then true else if !a.msb && b.msb then false
      else (a - b).msb := by
  by_cases hm : a.msb = b.msb
  · have ha := a.isLt
    have hb := b.isLt
    have hs : (a.msb && !b.msb) = false ∧ (!a.msb && b.msb) = false := by
      rw [hm]
      cases b.msb <;> exact ⟨rfl, rfl⟩
    rw [BitVec.slt_eq_ult_of_msb_eq hm, if_neg (by rw [hs.1]; decide),
      if_neg (by rw [hs.2]; decide), BitVec.ult_eq_decide, BitVec.msb_eq_decide,
      BitVec.toNat_sub, decide_eq_decide]
    rcases Nat.eq_zero_or_pos w with rfl | hw
    · omega
    · have hp : 2 ^ w = 2 * 2 ^ (w - 1) := by
        rw [← Nat.pow_succ', Nat.succ_eq_add_one, Nat.sub_add_cancel hw]
      rw [BitVec.msb_eq_decide, BitVec.msb_eq_decide, decide_eq_decide] at hm
      generalize 2 ^ w = p at hp ha hb ⊢
      generalize 2 ^ (w - 1) = q at hp hm ⊢
      rcases Nat.lt_or_ge a.toNat b.toNat with hlt | hge
      · have he : (p - b.toNat + a.toNat) % p = p - (b.toNat - a.toNat) := by
          rw [Nat.mod_eq_of_lt (by omega)]
          omega
        omega
      · have he : (p - b.toNat + a.toNat) % p = a.toNat - b.toNat := by
          have hs : p - b.toNat + a.toNat = (a.toNat - b.toNat) + p := by omega
          rw [hs, Nat.add_mod_right, Nat.mod_eq_of_lt (by omega)]
        omega
  · rw [BitVec.slt_eq_not_ult_of_msb_neq hm, BitVec.ult_eq_msb_of_msb_neq hm]
    revert hm
    cases a.msb <;> cases b.msb <;> simp

/-! ### Fields -/

theorem signExtend_eq_or {n : ℕ} (x : BitVec n) (w : ℕ) : x.signExtend w =
    x.setWidth w ||| (if x.msb then BitVec.allOnes w <<< n else 0#w) := by
  apply BitVec.eq_of_getLsbD_eq
  intro i hi
  rw [BitVec.getLsbD_signExtend, BitVec.getLsbD_or, BitVec.getLsbD_setWidth]
  by_cases h : i < n
  · cases x.msb <;> simp [h, hi]
  · have hx : x.getLsbD i = false := BitVec.getLsbD_of_ge _ _ (by omega)
    cases x.msb <;> simp [h, hi, hx]

theorem setWidth_signExtend {n v : ℕ} (x : BitVec n) (h : v ≤ w) :
    (x.signExtend w).setWidth v = x.signExtend v := by
  apply BitVec.eq_of_getLsbD_eq
  intro j hj
  rw [BitVec.getLsbD_setWidth, BitVec.getLsbD_signExtend, BitVec.getLsbD_signExtend]
  simp [hj, show j < w by omega]

theorem msb_extractLsb' {n : ℕ} (x : BitVec n) (i l : ℕ) :
    (x.extractLsb' i (l + 1)).msb = x.getLsbD (i + l) := by
  rw [BitVec.msb_eq_getLsbD_last, BitVec.getLsbD_extractLsb', Nat.add_sub_cancel,
    decide_eq_true (Nat.lt_succ_self l), Bool.true_and]

theorem setWidth_append_shiftLeft {n m : ℕ} (x : BitVec n) (y : BitVec m) (w k : ℕ) :
    (x ++ y).setWidth w <<< k = x.setWidth w <<< (m + k) ||| y.setWidth w <<< k := by
  apply BitVec.eq_of_getLsbD_eq
  intro i hi
  rw [BitVec.getLsbD_or, BitVec.getLsbD_shiftLeft, BitVec.getLsbD_shiftLeft,
    BitVec.getLsbD_shiftLeft, BitVec.getLsbD_setWidth, BitVec.getLsbD_setWidth,
    BitVec.getLsbD_setWidth, BitVec.getLsbD_append]
  by_cases h : i < k
  · simp [h, show i < m + k by omega]
  · by_cases hm : i - k < m
    · simp [h, hi, hm, show i < m + k by omega]
    · have hy : y.getLsbD (i - k) = false := BitVec.getLsbD_of_ge _ _ (by omega)
      simp [h, hi, hm, hy, show ¬ i < m + k by omega, show i - (m + k) = i - k - m by omega,
        show i - k < w by omega, show i - k - m < w by omega]

theorem setWidth_fields {na nb nc nd : ℕ} (a : BitVec na) (b : BitVec nb) (c : BitVec nc)
    (d : BitVec nd) (w : ℕ) : (a ++ b ++ c ++ d ++ 0#1).setWidth w =
      d.setWidth w <<< 1 ||| c.setWidth w <<< (nd + 1) ||| b.setWidth w <<< (nc + (nd + 1)) |||
        a.setWidth w <<< (nb + (nc + (nd + 1))) := by
  rw [← BitVec.shiftLeft_zero (BitVec.setWidth w (_ ++ _))]
  simp only [setWidth_append_shiftLeft, BitVec.setWidth_zero, BitVec.zero_shiftLeft, BitVec.or_zero]
  ac_rfl

/-- Clearing the low bit changes odd numbers only. -/
theorem and_not_one_eq_iff (x : BitVec w) : x &&& ~~~1#w = x ↔ x.getLsbD 0 = false := by
  constructor
  · intro h
    rw [← h, BitVec.getLsbD_and, BitVec.getLsbD_not]
    cases w with
    | zero => simp
    | succ n => simp
  · intro h
    apply BitVec.eq_of_getLsbD_eq
    intro i hi
    rw [BitVec.getLsbD_and, BitVec.getLsbD_not]
    rcases Nat.eq_zero_or_pos i with rfl | hp
    · rw [h]
      rfl
    · simp [hi, show i ≠ 0 by omega]

/-! ### The funnel shifter -/

/-- The low half of a double-width right shift by the remaining distance is a left shift. -/
theorem funnel_left {d : ℕ} (x : BitVec w) (hd : d ≤ w) :
    ((x ++ 0#w) >>> (w - d)).setWidth w = x <<< d := by
  apply BitVec.eq_of_getLsbD_eq
  intro i hi
  rw [BitVec.getLsbD_setWidth, BitVec.getLsbD_ushiftRight, BitVec.getLsbD_append,
    BitVec.getLsbD_shiftLeft]
  by_cases h : i < d
  · simp [h, hi, show w - d + i < w by omega]
  · simp [h, hi, show ¬ w - d + i < w by omega, show w - d + i - w = i - d by omega]

/-- With the high half filled by `s`, the low half is a right shift that shifts in `s`. -/
theorem funnel_right {d : ℕ} (x : BitVec w) (s : Bool) (hd : d ≤ w) :
    (((if s then BitVec.allOnes w else 0#w) ++ x) >>> d).setWidth w =
      if s then ~~~(~~~x >>> d) else x >>> d := by
  apply BitVec.eq_of_getLsbD_eq
  intro i hi
  rw [BitVec.getLsbD_setWidth, BitVec.getLsbD_ushiftRight, BitVec.getLsbD_append]
  by_cases h : d + i < w
  · cases s <;> simp [h, hi]
  · cases s <;> simp [h, hi, show d + i - w < w by omega, show w ≤ d + i by omega]

/-! ### Histories -/

/-- The last `n` bits of a history, the latest in bit 0, with zeroes before its beginning. -/
def lastBits (n : ℕ) (l : List Bool) : BitVec n := (BitVec.ofBoolListLE l.reverse).setWidth n

theorem getLsbD_lastBits {n : ℕ} (l : List Bool) {k : ℕ} (h : k < n) :
    (lastBits n l).getLsbD k = l.reverse.getD k false := by
  rw [lastBits, BitVec.getLsbD_setWidth, BitVec.getLsbD_ofBoolListLE, decide_eq_true h,
    Bool.true_and]

/-- **A shift register holds the last bits shifted in.** -/
theorem lastBits_concat (n : ℕ) (l : List Bool) (b : Bool) :
    lastBits (n + 1) (l ++ [b]) = (lastBits (n + 1) l).extractLsb' 0 n ++ BitVec.ofBool b := by
  apply BitVec.eq_of_getLsbD_eq
  intro k hk
  rw [getLsbD_lastBits _ hk, List.reverse_append, BitVec.getLsbD_append]
  cases k with
  | zero => simp
  | succ k =>
      rw [if_neg (by omega), BitVec.getLsbD_extractLsb', Nat.add_sub_cancel, Nat.zero_add,
        getLsbD_lastBits l (by omega), decide_eq_true (by omega), Bool.true_and]
      rfl

end Bits
