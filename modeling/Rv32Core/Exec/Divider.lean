import Mathlib.Tactic.LinearCombination
import Rv32Core.Lib.Clocked
import Rv32Core.Lib.Restoring
import Rv32Core.Machine

/-! # The iterative divider

`divider` divides by shift and subtract, one quotient bit per cycle, for any operand width
`W = 2 ^ LG_W`.  Signed operands are made non-negative when the division starts and the signs
are put back in PACK_OUTPUT.  The quotient bits are collected in the shift register `ss`, which
reset clears but a start does not. -/

namespace Rv32Core

open Clocked

/-- `state_t` of the divider. -/
inductive DivState where
  | idle | divide | packOutput | waitForWb
deriving DecidableEq, Repr

/-- The registers of the divider; `tSs` is the shift register `ss`. -/
structure Divider (lgW : ℕ) where
  rState : DivState
  rIsSigned : Bool
  rSign : Bool
  rRemSign : Bool
  rIsRemOp : Bool
  rRobPtr : RobPtr
  rGprPrfPtr : PrfPtr
  rY : BitVec (2 ^ lgW + 2 ^ lgW)
  rD : BitVec (2 ^ lgW + 2 ^ lgW)
  rR : BitVec (2 ^ lgW + 2 ^ lgW)
  rIdx : BitVec lgW
  tSs : BitVec (2 ^ lgW)

/-- The input ports of the divider. -/
structure DivIn (lgW : ℕ) where
  srcA : BitVec (2 ^ lgW)
  srcB : BitVec (2 ^ lgW)
  robPtrIn : RobPtr
  prfPtrIn : PrfPtr
  isSignedDiv : Bool
  isRem : Bool
  startDiv : Bool

/-- An operand made non-negative, `n_A` and `n_B`. -/
def magnitude {w : ℕ} (isSigned : Bool) (x : BitVec w) : BitVec w :=
  if isSigned && x.msb then ~~~x + 1 else x

/-- `shiftregbit` while `valid` is raised. -/
def shiftregbit {w : ℕ} (out : BitVec w) (b : Bool) : BitVec w := out.shiftConcat b

namespace Divider

variable {lgW : ℕ} (s : Divider lgW) (i : DivIn lgW)

/-- The remainder register shifted by one, `{r_R[W2-2:0], 1'b0}`. -/
def tShifted : BitVec (2 ^ lgW + 2 ^ lgW) := s.rR <<< 1

/-- `t_bit`: the divisor fits. -/
def tBit : Bool := decide (s.rD ≤ s.tShifted)

/-- The upper half of the remainder register, `n_R[W2-1:W]`. -/
def upper : BitVec (2 ^ lgW) := s.rR.extractLsb' (2 ^ lgW) (2 ^ lgW)

/-- `n_Y[W2-1:W]` in PACK_OUTPUT. -/
def packedRem : BitVec (2 ^ lgW) := if s.rIsSigned && s.rRemSign then ~~~s.upper + 1 else s.upper

/-- `n_Y[W-1:0]` in PACK_OUTPUT. -/
def packedLow : BitVec (2 ^ lgW) :=
  if s.rIsRemOp then s.packedRem else if s.rIsSigned && s.rSign then ~~~s.tSs + 1 else s.tSs

/-! ### Outputs -/

def ready : Bool := decide (s.rState = .idle) && !i.startDiv
def complete : Bool := decide (s.rState = .waitForWb)
def robPtrOut : RobPtr := s.rRobPtr
def prfPtrOut : PrfPtr := s.rGprPrfPtr
def y : BitVec (2 ^ lgW + 2 ^ lgW) := s.rY

/-- The result `y[W-1:0]`. -/
def result : BitVec (2 ^ lgW) := s.y.setWidth (2 ^ lgW)

/-! ### The clock edge -/

/-- One rising clock edge. -/
def step : Divider lgW :=
  match s.rState with
  | .idle =>
      { s with
        rState := if i.startDiv then .divide else .idle
        rRobPtr := i.robPtrIn
        rGprPrfPtr := i.prfPtrIn
        rIsRemOp := i.isRem
        rIsSigned := i.isSignedDiv
        rIdx := BitVec.ofNat lgW (2 ^ lgW - 1)
        rSign := i.srcA.msb ^^ i.srcB.msb
        rRemSign := i.srcA.msb
        rD := magnitude i.isSignedDiv i.srcB ++ 0#(2 ^ lgW)
        rR := 0#(2 ^ lgW) ++ magnitude i.isSignedDiv i.srcA }
  | .divide =>
      { s with
        rState := if s.rIdx = 0 then .packOutput else .divide
        rR := if s.tBit then s.tShifted - s.rD else s.tShifted
        rIdx := s.rIdx - 1
        tSs := shiftregbit s.tSs s.tBit }
  | .packOutput => { s with rState := .waitForWb, rY := s.packedRem ++ s.packedLow }
  | .waitForWb => { s with rState := .idle }

/-- The state after reset. -/
def init (lgW : ℕ) : Divider lgW where
  rState := .idle
  rIsSigned := false
  rSign := false
  rRemSign := false
  rIsRemOp := false
  rRobPtr := 0
  rGprPrfPtr := 0
  rY := 0
  rD := 0
  rR := 0
  rIdx := 0
  tSs := 0

end Divider

/-- The divider as a synchronous machine. -/
def dividerMachine (lgW : ℕ) : Machine (Divider lgW) (DivIn lgW) where
  reset s := s = Divider.init lgW
  step := Divider.step

/-! ### Specification -/

/-- The quotient the divider returns: the truncating quotient, and for a zero divisor all ones
with the sign of the dividend put back. -/
def divQuotient {w : ℕ} (isSigned : Bool) (a b : BitVec w) : BitVec w :=
  if b = 0 then (if isSigned && a.msb then 1 else BitVec.allOnes w)
  else if isSigned then a.sdiv b else a / b

/-- The remainder the divider returns; for a zero divisor it is the dividend. -/
def divRemainder {w : ℕ} (isSigned : Bool) (a b : BitVec w) : BitVec w :=
  if isSigned then a.srem b else a % b

/-- The number a register holds. -/
def signedValue {w : ℕ} (isSigned : Bool) (x : BitVec w) : ℤ := if isSigned then x.toInt else x.toNat

/-- `q` and `r` are quotient and remainder of `a` by `b`: the equation of division holds in the
width of the registers, and for a divisor other than zero they are the truncating quotient and
remainder, except that the quotient of the most negative number by `-1` wraps around. -/
structure Divides {w : ℕ} (isSigned : Bool) (a b q r : BitVec w) : Prop where
  equation : q * b + r = a
  quotient : b ≠ 0 → ¬(isSigned = true ∧ a = BitVec.intMin w ∧ b = -1) →
    signedValue isSigned q = (signedValue isSigned a).tdiv (signedValue isSigned b)
  remainder : b ≠ 0 → signedValue isSigned r = (signedValue isSigned a).tmod (signedValue isSigned b)
  small : b ≠ 0 → |signedValue isSigned r| < |signedValue isSigned b|
  sign : b ≠ 0 → signedValue isSigned r = 0 ∨
    (signedValue isSigned r).sign = (signedValue isSigned a).sign
  overflow : isSigned = true → a = BitVec.intMin w → b = -1 → q = BitVec.intMin w ∧ r = 0

namespace Divider

section spec

variable {w : ℕ} (isSigned : Bool) (a b : BitVec w)

theorem magnitude_eq : magnitude isSigned a = if isSigned && a.msb then -a else a := by
  unfold magnitude
  rw [BitVec.neg_eq_not_add]
  rfl

theorem magnitude_eq_zero : magnitude isSigned a = 0 ↔ a = 0 := by
  rw [magnitude_eq]
  split_ifs
  · exact neg_eq_zero
  · exact Iff.rfl

theorem magnitude_zero : magnitude isSigned (0 : BitVec w) = 0 :=
  (magnitude_eq_zero isSigned 0).mpr rfl

theorem quotient_fix (q : BitVec w)
    (h0 : b = 0 → q = BitVec.allOnes w)
    (h : b ≠ 0 → q = magnitude isSigned a / magnitude isSigned b) :
    (if isSigned && (a.msb ^^ b.msb) then ~~~q + 1 else q) = divQuotient isSigned a b := by
  unfold divQuotient
  by_cases hb : b = 0
  · rw [if_pos hb, h0 hb, hb]
    cases isSigned
    · rfl
    · cases a.msb <;> simp
  · rw [if_neg hb, h hb, magnitude_eq, magnitude_eq]
    cases isSigned
    · rfl
    · rw [BitVec.sdiv_eq]
      cases a.msb <;> cases b.msb <;> simp [BitVec.neg_eq_not_add]

theorem remainder_fix :
    (if isSigned && a.msb then ~~~(magnitude isSigned a % magnitude isSigned b) + 1
      else magnitude isSigned a % magnitude isSigned b) = divRemainder isSigned a b := by
  unfold divRemainder
  rw [magnitude_eq, magnitude_eq]
  cases isSigned
  · rfl
  · rw [BitVec.srem_eq]
    cases a.msb <;> cases b.msb <;> simp [BitVec.neg_eq_not_add]

theorem udiv_mul_add_umod : a / b * b + a % b = a := by
  rw [← BitVec.toNat_inj]
  simp only [BitVec.toNat_add, BitVec.toNat_mul, BitVec.toNat_udiv, BitVec.toNat_umod]
  rw [Nat.mod_add_mod, Nat.div_add_mod', Nat.mod_eq_of_lt a.isLt]

/-- The equation of division, also for a zero divisor and on overflow. -/
theorem divQuotient_mul_add : divQuotient isSigned a b * b + divRemainder isSigned a b = a := by
  unfold divQuotient divRemainder
  by_cases hb : b = 0
  · subst hb
    cases isSigned <;> simp
  · rw [if_neg hb]
    cases isSigned
    · exact udiv_mul_add_umod a b
    · simp only [if_true]
      rw [BitVec.sdiv_eq, BitVec.srem_eq]
      have h1 := udiv_mul_add_umod a b
      have h2 := udiv_mul_add_umod a (-b)
      have h3 := udiv_mul_add_umod (-a) b
      have h4 := udiv_mul_add_umod (-a) (-b)
      cases a.msb <;> cases b.msb <;> simp only
      · exact h1
      · show -(a / -b) * b + a % -b = a
        linear_combination h2
      · show -(-a / b) * b + -(-a % b) = a
        linear_combination -h3
      · show -a / -b * b + -(-a % -b) = a
        linear_combination -h4

theorem signedValue_ne_zero (hb : b ≠ 0) : signedValue isSigned b ≠ 0 := by
  unfold signedValue
  cases isSigned
  · exact fun h => hb (BitVec.toNat_inj.mp (by simpa using h))
  · exact fun h => hb (BitVec.toInt_inj.mp (by simpa using h))

/-- **The specification divides.** -/
theorem divides_divQuotient :
    Divides isSigned a b (divQuotient isSigned a b) (divRemainder isSigned a b) := by
  have hrem : signedValue isSigned (divRemainder isSigned a b) =
      (signedValue isSigned a).tmod (signedValue isSigned b) := by
    unfold signedValue divRemainder
    cases isSigned
    · simp only [Bool.false_eq_true, if_false, BitVec.toNat_umod]
      exact Int.natCast_mod _ _
    · exact BitVec.toInt_srem a b
  refine ⟨divQuotient_mul_add _ _ _, fun hb ho => ?_, fun _ => hrem, fun hb => ?_, fun _ => ?_,
    fun hs ha hb => ?_⟩
  · unfold divQuotient signedValue
    rw [if_neg hb]
    cases isSigned
    · simp only [Bool.false_eq_true, if_false]
      rfl
    · refine BitVec.toInt_sdiv_of_ne_or_ne a b ?_
      by_contra hc
      rw [not_or, not_not, not_not] at hc
      exact ho ⟨rfl, hc⟩
  · have hn := Int.natAbs_pos.mpr (signedValue_ne_zero isSigned b hb)
    rw [hrem, Int.abs_eq_natAbs, Int.abs_eq_natAbs, Int.natAbs_tmod]
    exact Int.ofNat_lt.mpr (Nat.mod_lt _ hn)
  · rw [hrem, ← Int.sign_eq_zero_iff_zero, Int.sign_tmod]
    split_ifs
    · exact .inl rfl
    · exact .inr rfl
  · subst hs ha hb
    obtain rfl | hw := Nat.eq_zero_or_pos w
    · exact ⟨Subsingleton.elim _ _, Subsingleton.elim _ _⟩
    have h1 : (-1#w).toInt = -1 := by
      rw [BitVec.neg_one_eq_allOnes, BitVec.toInt_allOnes, if_pos hw]
    have hne : (-1 : BitVec w) ≠ 0 := fun h => by
      have h2 : (-1#w).toInt = (0#w).toInt := congrArg BitVec.toInt h
      rw [h1, BitVec.toInt_zero] at h2
      omega
    constructor
    · unfold divQuotient
      rw [if_neg hne]
      exact BitVec.intMin_sdiv_neg_one
    · rw [← BitVec.toInt_inj]
      refine (BitVec.toInt_srem _ _).trans ?_
      show (BitVec.intMin w).toInt.tmod (-1#w).toInt = (0#w).toInt
      rw [h1, Int.tmod_neg, Int.tmod_one, BitVec.toInt_zero]

end spec

/-! ### Registers as numbers -/

section registers

variable {w : ℕ}

theorem toNat_double {r : BitVec (w + w)} (h : 2 * r.toNat < 2 ^ (w + w)) :
    (r <<< 1).toNat = 2 * r.toNat := by
  rw [BitVec.toNat_shiftLeft, Nat.shiftLeft_eq, pow_one, mul_comm, Nat.mod_eq_of_lt h]

theorem toNat_upperHalf (r : BitVec (w + w)) :
    (r.extractLsb' w w).toNat = r.toNat / 2 ^ w := by
  have hr := r.isLt
  rw [pow_add] at hr
  rw [BitVec.extractLsb'_toNat, Nat.shiftRight_eq_div_pow,
    Nat.mod_eq_of_lt (Nat.div_lt_of_lt_mul hr)]

theorem toNat_append_zero (b : BitVec w) : (b ++ 0#w).toNat = b.toNat * 2 ^ w := by
  rw [BitVec.toNat_append, BitVec.toNat_ofNat, Nat.zero_mod, Nat.or_zero, Nat.shiftLeft_eq]

theorem toNat_zero_append (a : BitVec w) : (0#w ++ a).toNat = a.toNat := by
  rw [BitVec.toNat_append, BitVec.toNat_ofNat, Nat.zero_mod, Nat.zero_shiftLeft, Nat.zero_or]

end registers

/-! ### One division -/

/-- The tags and the sign flags captured at the start. -/
structure Captured {lgW : ℕ} (i : DivIn lgW) (s : Divider lgW) : Prop where
  rob : s.rRobPtr = i.robPtrIn
  prf : s.rGprPrfPtr = i.prfPtrIn
  isRem : s.rIsRemOp = i.isRem
  isSigned : s.rIsSigned = i.isSignedDiv
  sign : s.rSign = (i.srcA.msb ^^ i.srcB.msb)
  remSign : s.rRemSign = i.srcA.msb

/-- The registers after `k` steps of the division started by `i`. -/
structure Steps {lgW : ℕ} (i : DivIn lgW) (k : ℕ) (s : Divider lgW) : Prop extends Captured i s where
  divisor : s.rD.toNat = (magnitude i.isSignedDiv i.srcB).toNat * 2 ^ 2 ^ lgW
  inv : Restoring.Inv (2 ^ lgW) (magnitude i.isSignedDiv i.srcA).toNat
    (magnitude i.isSignedDiv i.srcB).toNat k s.rR.toNat (s.tSs.toNat % 2 ^ k)

/-- The divider is in DIVIDE with `k` steps behind it. -/
structure Dividing {lgW : ℕ} (i : DivIn lgW) (k : ℕ) (s : Divider lgW) : Prop
    extends Steps i k s where
  state : s.rState = .divide
  idx : s.rIdx.toNat + k + 1 = 2 ^ lgW

/-- The result is in `r_Y`. -/
structure Packed {lgW : ℕ} (i : DivIn lgW) (s : Divider lgW) : Prop extends Captured i s where
  result : s.result =
    if i.isRem then divRemainder i.isSignedDiv i.srcA i.srcB
    else divQuotient i.isSignedDiv i.srcA i.srcB

variable {lgW : ℕ} {s : Divider lgW} {i j : DivIn lgW} {k : ℕ}

theorem dividing_start (hs : s.rState = .idle) (hi : i.startDiv = true) :
    (s.step i).Dividing i 0 := by
  have hw : 0 < 2 ^ lgW := Nat.two_pow_pos lgW
  unfold step
  rw [hs]
  refine ⟨⟨⟨rfl, rfl, rfl, rfl, rfl, rfl⟩, toNat_append_zero _, ?_⟩, if_pos hi, ?_⟩
  · have h := Restoring.Inv.init (w := 2 ^ lgW) (n := (magnitude i.isSignedDiv i.srcA).toNat)
      (d := (magnitude i.isSignedDiv i.srcB).toNat) (BitVec.isLt _)
    rw [toNat_zero_append, pow_zero, Nat.mod_one]
    exact h
  · rw [BitVec.toNat_ofNat, Nat.mod_eq_of_lt (by omega)]
    omega

/-- No bit is lost when the partial remainder is shifted. -/
theorem Dividing.toNat_tShifted (h : s.Dividing i k) :
    s.rR.msb = false ∧ s.tShifted.toNat = 2 * s.rR.toNat := by
  have hk := h.idx
  have hd := h.inv.double_lt (by omega)
  exact ⟨BitVec.msb_eq_false_iff_two_mul_lt.mpr hd, toNat_double hd⟩

theorem Dividing.tBit_iff (h : s.Dividing i k) : s.tBit = true ↔
    (magnitude i.isSignedDiv i.srcB).toNat * 2 ^ 2 ^ lgW ≤ 2 * s.rR.toNat := by
  obtain ⟨-, hs⟩ := h.toNat_tShifted
  unfold tBit
  rw [decide_eq_true_iff, BitVec.le_def, h.divisor, hs]

theorem Dividing.tBit_eq (h : s.Dividing i k) : s.tBit.toNat =
    Restoring.bit (2 ^ lgW) (magnitude i.isSignedDiv i.srcB).toNat s.rR.toNat := by
  unfold Restoring.bit
  by_cases hc : s.tBit = true
  · rw [if_pos (h.tBit_iff.mp hc), hc]
    rfl
  · rw [if_neg (mt h.tBit_iff.mpr hc), Bool.eq_false_iff.mpr hc]
    rfl

theorem Dividing.rR_eq (h : s.Dividing i k) :
    (if s.tBit then s.tShifted - s.rD else s.tShifted).toNat =
      Restoring.next (2 ^ lgW) (magnitude i.isSignedDiv i.srcB).toNat s.rR.toNat := by
  obtain ⟨-, hs⟩ := h.toNat_tShifted
  unfold Restoring.next
  by_cases hc : s.tBit = true
  · have hd := h.tBit_iff.mp hc
    rw [if_pos hc, if_pos hd, BitVec.toNat_sub_of_le, hs, h.divisor]
    rw [BitVec.le_def, h.divisor, hs]
    exact hd
  · rw [if_neg hc, if_neg (mt h.tBit_iff.mpr hc), hs]

/-- **One cycle of DIVIDE.** -/
theorem Dividing.steps (h : s.Dividing i k) : (s.step j).Steps i (k + 1) := by
  have hk := h.idx
  have hinv := h.inv.step
  rw [← h.rR_eq, ← h.tBit_eq] at hinv
  have hss : (shiftregbit s.tSs s.tBit).toNat % 2 ^ (k + 1) =
      2 * (s.tSs.toNat % 2 ^ k) + s.tBit.toNat := by
    have hbit := Bool.toNat_le s.tBit
    have hm := Nat.mod_lt s.tSs.toNat (Nat.two_pow_pos k)
    have he := Nat.mod_add_div s.tSs.toNat (2 ^ k)
    have hpow : 2 ^ (k + 1) = 2 * 2 ^ k := by rw [pow_succ, mul_comm]
    have hsum : s.tSs.toNat * 2 + s.tBit.toNat =
        2 * (s.tSs.toNat % 2 ^ k) + s.tBit.toNat + 2 ^ (k + 1) * (s.tSs.toNat / 2 ^ k) := by
      rw [hpow, mul_assoc]
      omega
    rw [shiftregbit, BitVec.toNat_shiftConcat, Nat.shiftLeft_eq, pow_one,
      Nat.mod_mod_of_dvd _ (pow_dvd_pow 2 (by omega)), hsum, Nat.add_mul_mod_self_left,
      Nat.mod_eq_of_lt (by omega)]
  unfold step
  rw [h.state]
  refine ⟨⟨h.rob, h.prf, h.isRem, h.isSigned, h.sign, h.remSign⟩, h.divisor, ?_⟩
  show Restoring.Inv _ _ _ _ _ ((shiftregbit s.tSs s.tBit).toNat % 2 ^ (k + 1))
  rw [hss]
  exact hinv

theorem Dividing.step (h : s.Dividing i k) (hk : k + 1 < 2 ^ lgW) :
    (s.step j).Dividing i (k + 1) := by
  have hidx := h.idx
  refine ⟨h.steps, ?_, ?_⟩
  · unfold Divider.step
    rw [h.state]
    refine if_neg fun h0 => ?_
    have hz : s.rIdx.toNat = 0 := by rw [h0]; exact Nat.zero_mod _
    omega
  · unfold Divider.step
    rw [h.state]
    show (s.rIdx - 1).toNat + (k + 1) + 1 = 2 ^ lgW
    have hw : 1 < 2 ^ lgW := by omega
    have h1 : (1 : BitVec lgW).toNat = 1 := Nat.mod_eq_of_lt hw
    have hle : (1 : BitVec lgW) ≤ s.rIdx := by
      rw [BitVec.le_def, h1]
      omega
    rw [BitVec.toNat_sub_of_le hle, h1]
    omega

theorem Dividing.last (h : s.Dividing i k) (hk : k + 1 = 2 ^ lgW) :
    (s.step j).rState = .packOutput := by
  have hidx := h.idx
  unfold Divider.step
  rw [h.state]
  refine if_pos ?_
  have hz : (0 : BitVec lgW).toNat = 0 := Nat.zero_mod _
  rw [← BitVec.toNat_inj, hz]
  omega

theorem Steps.magnitudes (h : s.Steps i (2 ^ lgW)) :
    (i.srcB = 0 → s.tSs = BitVec.allOnes _) ∧
    (i.srcB ≠ 0 → s.tSs = magnitude i.isSignedDiv i.srcA / magnitude i.isSignedDiv i.srcB) ∧
    s.upper = magnitude i.isSignedDiv i.srcA % magnitude i.isSignedDiv i.srcB := by
  have hinv := h.inv
  rw [Nat.mod_eq_of_lt s.tSs.isLt] at hinv
  refine ⟨fun hb => ?_, fun hb => ?_, ?_⟩
  · have h1 := hinv.ones (by rw [hb, magnitude_zero]; exact Nat.zero_mod _)
    rw [← BitVec.toNat_inj, BitVec.toNat_allOnes]
    omega
  · have hd : 0 < (magnitude i.isSignedDiv i.srcB).toNat := by
      refine Nat.pos_of_ne_zero fun h0 => hb ((magnitude_eq_zero i.isSignedDiv i.srcB).mp ?_)
      rw [← BitVec.toNat_inj, h0]
      exact (Nat.zero_mod _).symm
    rw [← BitVec.toNat_inj, BitVec.toNat_udiv]
    exact hinv.div hd
  · rw [← BitVec.toNat_inj, BitVec.toNat_umod, upper, toNat_upperHalf]
    exact hinv.mod

/-- **PACK_OUTPUT puts the signs back.** -/
theorem Steps.pack (h : s.Steps i (2 ^ lgW)) (hs : s.rState = .packOutput) :
    (s.step j).rState = .waitForWb ∧ (s.step j).Packed i := by
  obtain ⟨h0, h1, hr⟩ := h.magnitudes
  have hrem : s.packedRem = divRemainder i.isSignedDiv i.srcA i.srcB := by
    unfold packedRem
    rw [h.isSigned, h.remSign, hr]
    exact remainder_fix _ _ _
  have hlow : s.packedLow = if i.isRem then divRemainder i.isSignedDiv i.srcA i.srcB
      else divQuotient i.isSignedDiv i.srcA i.srcB := by
    unfold packedLow
    rw [hrem, h.isRem, h.isSigned, h.sign, quotient_fix _ _ _ _ h0 h1]
  unfold step
  rw [hs]
  refine ⟨rfl, ⟨⟨h.rob, h.prf, h.isRem, h.isSigned, h.sign, h.remSign⟩, ?_⟩⟩
  show (s.packedRem ++ s.packedLow).setWidth (2 ^ lgW) = _
  rw [← hlow]
  exact BitVec.setWidth_append_eq_right

theorem step_waitForWb (hs : s.rState = .waitForWb) : (s.step j).rState = .idle := by
  unfold step
  rw [hs]

/-! ### A whole division -/

theorem Dividing.run (h : s.Dividing i k) (is : List (DivIn lgW)) (hl : k + is.length < 2 ^ lgW) :
    ((dividerMachine lgW).run s is).Dividing i (k + is.length) := by
  induction is generalizing s k with
  | nil => exact h
  | cons j is ih =>
      rw [List.length_cons] at hl ⊢
      have hn := ih (h.step (j := j) (by omega)) (by omega)
      rw [Nat.add_right_comm] at hn
      exact hn

theorem Dividing.run_pack (h : s.Dividing i 0) {is : List (DivIn lgW)} (hl : is.length = 2 ^ lgW) :
    ((dividerMachine lgW).run s is).Steps i (2 ^ lgW) ∧
      ((dividerMachine lgW).run s is).rState = .packOutput := by
  have hw : 0 < 2 ^ lgW := Nat.two_pow_pos lgW
  obtain rfl | ⟨js, j, rfl⟩ := is.eq_nil_or_concat'
  · rw [List.length_nil] at hl
    omega
  · rw [List.length_append, List.length_singleton] at hl
    have hd := h.run js (by omega)
    rw [Nat.zero_add] at hd
    have hs := hd.steps (j := j)
    rw [hl] at hs
    rw [Machine.run_append]
    exact ⟨hs, hd.last hl⟩

theorem Dividing.run_done (h : s.Dividing i 0) {is : List (DivIn lgW)}
    (hl : is.length = 2 ^ lgW + 1) :
    ((dividerMachine lgW).run s is).rState = .waitForWb ∧
      ((dividerMachine lgW).run s is).Packed i := by
  obtain rfl | ⟨js, j, rfl⟩ := is.eq_nil_or_concat'
  · cases hl
  · rw [List.length_append, List.length_singleton] at hl
    have hjs : js.length = 2 ^ lgW := by omega
    obtain ⟨hs, hp⟩ := h.run_pack hjs
    rw [Machine.run_append]
    exact hs.pack hp

theorem Dividing.run_idle (h : s.Dividing i 0) {is : List (DivIn lgW)}
    (hl : is.length = 2 ^ lgW + 2) : ((dividerMachine lgW).run s is).rState = .idle := by
  obtain rfl | ⟨js, j, rfl⟩ := is.eq_nil_or_concat'
  · cases hl
  · rw [List.length_append, List.length_singleton] at hl
    have hjs : js.length = 2 ^ lgW + 1 := by omega
    obtain ⟨hs, -⟩ := h.run_done hjs
    rw [Machine.run_append]
    exact step_waitForWb hs

/-- **The divider divides.**  From IDLE a start is followed by `W` cycles of DIVIDE, in which no
bit of the partial remainder is shifted out; `complete` is raised `W + 2` cycles after the start
and in no other cycle up to the return to IDLE, with the tags of the start and the quotient or
the remainder in the low half of `y`. -/
theorem iterative_division (hs : s.rState = .idle) (hi : i.startDiv = true) :
    (∀ is : List (DivIn lgW), is.length < 2 ^ lgW →
      ((dividerMachine lgW).run s (i :: is)).rState = .divide ∧
        ((dividerMachine lgW).run s (i :: is)).rR.msb = false) ∧
    (∀ is : List (DivIn lgW), is.length ≤ 2 ^ lgW + 2 →
      (((dividerMachine lgW).run s (i :: is)).complete = true ↔ is.length = 2 ^ lgW + 1)) ∧
    (∀ is : List (DivIn lgW), is.length = 2 ^ lgW + 2 →
      ((dividerMachine lgW).run s (i :: is)).rState = .idle) ∧
    Divides i.isSignedDiv i.srcA i.srcB (divQuotient i.isSignedDiv i.srcA i.srcB)
      (divRemainder i.isSignedDiv i.srcA i.srcB) ∧
    ∀ is : List (DivIn lgW), is.length = 2 ^ lgW + 1 →
      ((dividerMachine lgW).run s (i :: is)).robPtrOut = i.robPtrIn ∧
        ((dividerMachine lgW).run s (i :: is)).prfPtrOut = i.prfPtrIn ∧
        ((dividerMachine lgW).run s (i :: is)).result =
          if i.isRem then divRemainder i.isSignedDiv i.srcA i.srcB
          else divQuotient i.isSignedDiv i.srcA i.srcB := by
  have h0 := dividing_start hs hi
  have hrun : ∀ is : List (DivIn lgW), is.length < 2 ^ lgW →
      ((dividerMachine lgW).run s (i :: is)).Dividing i is.length := fun is hl => by
    have h := h0.run is (by omega)
    rw [Nat.zero_add] at h
    exact h
  refine ⟨fun is hl => ⟨(hrun is hl).state, (hrun is hl).toNat_tShifted.1⟩, fun is hl => ?_,
    fun is hl => h0.run_idle hl, divides_divQuotient _ _ _, fun is hl => ?_⟩
  · have hcomplete : ∀ x : DivState, ((dividerMachine lgW).run s (i :: is)).rState = x →
        ((dividerMachine lgW).run s (i :: is)).complete = decide (x = .waitForWb) :=
      fun x hx => by rw [complete, hx]
    rcases Nat.lt_trichotomy is.length (2 ^ lgW) with hlt | heq | hgt
    · rw [hcomplete _ (hrun is hlt).state]
      exact ⟨fun h => (Bool.false_ne_true h).elim, fun h => absurd h (by omega)⟩
    · rw [hcomplete _ (h0.run_pack heq).2]
      exact ⟨fun h => (Bool.false_ne_true h).elim, fun h => absurd h (by omega)⟩
    · by_cases hd : is.length = 2 ^ lgW + 1
      · rw [hcomplete _ (h0.run_done hd).1]
        exact ⟨fun _ => hd, fun _ => rfl⟩
      · have hidle : is.length = 2 ^ lgW + 2 := by omega
        rw [hcomplete _ (h0.run_idle hidle)]
        exact ⟨fun h => (Bool.false_ne_true h).elim, fun h => absurd h hd⟩
  · obtain ⟨-, hp⟩ := h0.run_done hl
    exact ⟨hp.rob, hp.prf, hp.result⟩

/-- The 32-bit divider returns the remainder of `-7` by `2`. -/
theorem iterative_division_rem :
    ((dividerMachine 5).run (init 5) (⟨-7, 2, 4, 9, true, true, true⟩ ::
      List.replicate 33 ⟨0, 0, 0, 0, false, false, false⟩)).result = -1 := by
  have h := (iterative_division (s := init 5) (i := ⟨-7, 2, 4, 9, true, true, true⟩) rfl rfl).2.2.2.2
    (List.replicate 33 ⟨0, 0, 0, 0, false, false, false⟩) (List.length_replicate ..)
  rw [h.2.2]
  decide

end Divider
end Rv32Core
