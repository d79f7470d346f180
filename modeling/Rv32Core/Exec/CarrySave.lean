import Mathlib.Algebra.BigOperators.Ring.Finset
import Mathlib.Tactic.Ring
import Rv32Core.Checker.MulDiv
import Rv32Core.Lib.CarrySave

/-! # The carry-save multiplier

`mul` has two builds.  The one for an FPGA multiplies and delays the product; it is `Mul`.  The
other registers the operands, forms 32 partial products, adds them with three chains of carry-save
adders over three cycles, and ends in one adder.  A signed product complements the partial products
of the sign bits and adds constants at bits 32 and 63.

Both builds share the pipeline of tags, and this module proves that they give the same product in
the same cycle, which is the one the interpreter writes. -/

namespace Rv32Core

open Bits Clocked

/-- `MUL_LAT`. -/
def mulLat : ℕ := 3

/-- The registers of `mul` without `FPGA`.  `rPp` has an entry that is never written. -/
structure MulArray where
  rComplete : Fin 4 → Bool
  rIsHigh : Fin 4 → Bool
  rRobPtr : Fin 4 → RobPtr
  rGprPtr : Fin 4 → PrfPtr
  rA : Word
  rB : Word
  rSigned : Bool
  rPp : Fin 4 → ℕ → BitVec 64
  rS11 : BitVec 64
  rC11 : BitVec 64
  rS22 : BitVec 64
  rC22 : BitVec 64
  rMul31 : BitVec 64

namespace MulArray

variable (m : MulArray) (i : MulIn)

/-! ### Partial products -/

/-- `w_pp_us`. -/
def wPpUs (j : ℕ) : BitVec 64 :=
  (m.rA &&& (if m.rB.getLsbD j then BitVec.allOnes 32 else 0)).setWidth 64 <<< j

/-- `w_pp`. -/
def wPp (j : ℕ) : BitVec 64 :=
  let us := m.wPpUs j
  if j = 0 then
    us.extractLsb' 33 31 ++
      (if m.rSigned then 1#1 ++ ~~~us.extractLsb' 31 1 else 0#1 ++ us.extractLsb' 31 1) ++
      us.extractLsb' 0 31
  else if j = 31 then
    if m.rSigned then 1#1 ++ us.extractLsb' 62 1 ++ ~~~us.extractLsb' 31 31 ++ 0#31 else us
  else
    (us.extractLsb' (32 + j) (32 - j) ++
      (if m.rSigned then ~~~us.extractLsb' (31 + j) 1 else us.extractLsb' (31 + j) 1) ++
      us.extractLsb' 0 (31 + j)).setWidth 64

/-! ### The chains -/

/-- `c0` to `c11`: `w_s11` and `w_c11`. -/
def chain11 : BitVec 64 × BitVec 64 :=
  ((List.range' 3 11).map m.wPp).foldl csaRow
    (csaSum (m.wPp 0) (m.wPp 1) (m.wPp 2), csaCarry (m.wPp 0) (m.wPp 1) (m.wPp 2))

/-- `c12` to `c22`: `w_s22` and `w_c22`. -/
def chain22 : BitVec 64 × BitVec 64 :=
  ((List.range' 14 11).map (m.rPp (Mul.stage 0))).foldl csaRow (m.rS11, m.rC11)

/-- `c23` to `c29`: `w_s29` and `w_c29`. -/
def chain29 : BitVec 64 × BitVec 64 :=
  ((List.range' 25 7).map (m.rPp (Mul.stage 1))).foldl csaRow (m.rS22, m.rC22)

/-- `w_mul31`. -/
def wMul31 : BitVec 64 := m.chain29.1 + m.chain29.2 <<< 1

def complete : Bool := m.rComplete (Mul.stage mulLat)
def robPtrOut : RobPtr := m.rRobPtr (Mul.stage mulLat)
def prfPtrOut : PrfPtr := m.rGprPtr (Mul.stage mulLat)

/-- `y`. -/
def y : BitVec 64 :=
  if m.rIsHigh (Mul.stage mulLat) then (m.rMul31.extractLsb' 32 32).setWidth 64 else m.rMul31

/-- One rising clock edge. -/
def step : MulArray where
  rComplete := Mul.shift i.go m.rComplete
  rIsHigh := Mul.shift i.isHigh m.rIsHigh
  rRobPtr := Mul.shift i.robPtrIn m.rRobPtr
  rGprPtr := Mul.shift i.prfPtrIn m.rGprPtr
  rA := i.srcA
  rB := i.srcB
  rSigned := i.isSigned
  rPp k := if k = Mul.stage mulLat then m.rPp (Mul.stage mulLat) else Mul.shift m.wPp m.rPp k
  rS11 := m.chain11.1
  rC11 := m.chain11.2
  rS22 := m.chain22.1
  rC22 := m.chain22.2
  rMul31 := m.wMul31

/-! ### The value of the partial products -/

theorem wPpUs_eq (j : ℕ) (hj : j < 32) :
    m.wPpUs j = partialProduct (m.rA.setWidth 64) (m.rB.setWidth 64) j := by
  rw [wPpUs, partialProduct, BitVec.getLsbD_setWidth, decide_eq_true (show j < 64 by omega),
    Bool.true_and]
  cases m.rB.getLsbD j
  · simp
  · rw [if_pos rfl, if_pos rfl, BitVec.and_allOnes]

theorem getLsbD_wPpUs_eq_false {j k : ℕ} (h : k < j ∨ 32 + j ≤ k) :
    (m.wPpUs j).getLsbD k = false := by
  rw [wPpUs, BitVec.getLsbD_shiftLeft, BitVec.getLsbD_setWidth]
  obtain h | h := h
  · simp [h]
  · rw [BitVec.getLsbD_of_ge _ (k - j) (by omega)]
    simp

theorem wPp_zero : m.wPp 0 = m.wPpUs 0 ^^^
    (if m.rSigned then BitVec.twoPow 64 31 ^^^ BitVec.twoPow 64 32 else 0) := by
  have h32 : (m.wPpUs 0)[32] = false := m.getLsbD_wPpUs_eq_false (j := 0) (k := 32) (.inr (by omega))
  have hpair (b c : BitVec 1) : (b ++ c).getLsbD 0 = c.getLsbD 0 ∧
      (b ++ c).getLsbD 1 = b.getLsbD 0 := by
    constructor <;> rw [BitVec.getLsbD_append] <;> rfl
  apply BitVec.eq_of_getLsbD_eq
  intro k hk
  rw [wPp, if_pos rfl, ← BitVec.setWidth_eq (_ ++ _ ++ BitVec.extractLsb' 0 31 _)]
  refine (getLsbD_splice (m.wPpUs 0) _ hk).trans ?_
  by_cases h1 : k < 31
  · cases m.rSigned <;> simp [h1, show 31 ≠ k by omega, show 32 ≠ k by omega]
  · by_cases h2 : k < 31 + (1 + 1)
    · obtain rfl | rfl : k = 31 ∨ k = 32 := by omega
      · rw [if_neg h1, if_pos h2, apply_ite (BitVec.getLsbD · (31 - 31)), (hpair _ _).1,
          (hpair _ _).1]
        cases m.rSigned <;> simp
      · rw [if_neg h1, if_pos h2, apply_ite (BitVec.getLsbD · (32 - 31)), (hpair _ _).2,
          (hpair _ _).2]
        cases m.rSigned <;> simp [h32]
    · cases m.rSigned <;> simp [h1, h2, show 31 ≠ k by omega, show 32 ≠ k by omega]

/-- Rows 1 to 30 complement the product of the sign bit. -/
theorem wPp_middle {j : ℕ} (h0 : j ≠ 0) (hj : j < 31) : m.wPp j = m.wPpUs j ^^^
    (if m.rSigned then BitVec.twoPow 64 (31 + j) else 0) := by
  apply BitVec.eq_of_getLsbD_eq
  intro k hk
  rw [wPp, if_neg h0, if_neg (by omega)]
  have h := getLsbD_splice (m.wPpUs j) (if m.rSigned then ~~~(m.wPpUs j).extractLsb' (31 + j) 1
    else (m.wPpUs j).extractLsb' (31 + j) 1) (k := 31 + j) hk
  rw [show 31 + j + 1 = 32 + j by omega, show 64 - (32 + j) = 32 - j by omega] at h
  rw [h]
  by_cases h1 : k < 31 + j
  · cases m.rSigned <;> simp [h1, show 31 + j ≠ k by omega]
  · by_cases h2 : k = 31 + j
    · cases m.rSigned <;> simp [h2, show 31 + j < 64 by omega]
    · cases m.rSigned <;> simp [h1, show 31 + j ≠ k by omega, show ¬k < 32 + j by omega]

theorem wPp_unsigned (hs : m.rSigned = false) {j : ℕ} (hj : j < 32) : m.wPp j = m.wPpUs j := by
  have hsign : ¬m.rSigned = true := by rw [hs]; decide
  by_cases h0 : j = 0
  · rw [h0, wPp_zero, if_neg hsign]
    exact BitVec.xor_zero
  · by_cases h31 : j = 31
    · rw [wPp, if_neg h0, if_pos h31, if_neg hsign]
    · rw [m.wPp_middle h0 (by omega), if_neg hsign]
      exact BitVec.xor_zero

/-- The bits 31 to 61 of a word. -/
def lowField : BitVec 64 := 0x3fffffff80000000#64

/-- The last row of a signed product complements all products but that of the two sign bits. -/
theorem wPp_last (hs : m.rSigned = true) : m.wPp 31 + m.wPpUs 31 =
    BitVec.twoPow 64 63 + lowField + 2 * (m.wPpUs 31 &&& BitVec.twoPow 64 62) := by
  have hfield : ∀ k < 64, lowField.getLsbD k = (decide (31 ≤ k) && decide (k < 62)) := by decide
  have hout : ∀ k < 64, k < 31 ∨ k = 63 → (m.wPpUs 31).getLsbD k = false := fun k _ h =>
    m.getLsbD_wPpUs_eq_false (by omega)
  -- the product of the sign bits is at bit 62, the others are below
  have hrest : m.wPpUs 31 &&& ~~~BitVec.twoPow 64 62 = m.wPpUs 31 &&& lowField := by
    apply BitVec.eq_of_getLsbD_eq
    intro k hk
    rw [BitVec.getLsbD_and, BitVec.getLsbD_and, BitVec.getLsbD_not, hfield k hk,
      BitVec.getLsbD_twoPow]
    by_cases h : k < 31 ∨ k = 63
    · rw [hout k hk h, Bool.false_and, Bool.false_and]
    · by_cases h62 : k = 62
      · simp [h62]
      · simp [hk, show 62 ≠ k by omega, show 31 ≤ k by omega, show k < 62 by omega]
  have hpp : m.wPp 31 = BitVec.twoPow 64 63 + (m.wPpUs 31 &&& BitVec.twoPow 64 62) +
      (lowField &&& ~~~m.wPpUs 31) := by
    have h1 : BitVec.twoPow 64 63 + (m.wPpUs 31 &&& BitVec.twoPow 64 62) =
        BitVec.twoPow 64 63 ||| (m.wPpUs 31 &&& BitVec.twoPow 64 62) := by
      apply add_eq_or_of_disjoint
      intro k hk h
      rw [BitVec.getLsbD_twoPow, Bool.and_eq_true, decide_eq_true_eq, decide_eq_true_eq] at h
      rw [BitVec.getLsbD_and, hout k hk (.inr h.2.symm), Bool.false_and]
    rw [h1, add_eq_or_of_disjoint]
    · apply BitVec.eq_of_getLsbD_eq
      intro k hk
      rw [wPp, if_neg (by decide), if_pos rfl, if_pos hs, BitVec.getLsbD_or, BitVec.getLsbD_or,
        BitVec.getLsbD_and, BitVec.getLsbD_and, BitVec.getLsbD_not, hfield k hk,
        BitVec.getLsbD_twoPow, BitVec.getLsbD_twoPow, BitVec.getLsbD_append,
        BitVec.getLsbD_append, BitVec.getLsbD_append, BitVec.getLsbD_not,
        BitVec.getLsbD_extractLsb', BitVec.getLsbD_extractLsb']
      by_cases h31 : k < 31
      · simp [h31, show 63 ≠ k by omega, show 62 ≠ k by omega, show ¬31 ≤ k by omega]
      · by_cases h62 : k < 62
        · simp [h31, h62, hk, show 63 ≠ k by omega, show 62 ≠ k by omega, show 31 ≤ k by omega,
            show k - 31 < 31 by omega, show 31 + (k - 31) = k by omega]
        · obtain rfl | rfl : k = 62 ∨ k = 63 := by omega
          · simp
          · simp
    · intro k hk h
      rw [BitVec.getLsbD_and, hfield k hk]
      rw [BitVec.getLsbD_or, BitVec.getLsbD_and, BitVec.getLsbD_twoPow, BitVec.getLsbD_twoPow] at h
      by_cases hlt : k < 62
      · simp [show 63 ≠ k by omega, show 62 ≠ k by omega] at h
      · simp [hlt]
  have hus := and_add_and_not (m.wPpUs 31) (BitVec.twoPow 64 62)
  have hlow := and_add_and_not lowField (m.wPpUs 31)
  rw [hrest, BitVec.and_comm _ lowField] at hus
  linear_combination hpp - hus + hlow

/-- The product of the sign bit of the first operand and a bit of the second. -/
def signProduct (j : ℕ) : BitVec 64 :=
  partialProduct (if m.rA.msb then BitVec.twoPow 64 31 else 0) (m.rB.setWidth 64) j

theorem wPpUs_and_top {j : ℕ} (hj : j < 32) :
    m.wPpUs j &&& BitVec.twoPow 64 (31 + j) = m.signProduct j := by
  have htop : (m.wPpUs j).getLsbD (31 + j) = (m.rA.msb && m.rB.getLsbD j) := by
    rw [wPpUs, BitVec.getLsbD_shiftLeft, BitVec.getLsbD_setWidth, BitVec.getLsbD_and,
      BitVec.msb_eq_getLsbD_last, Nat.add_sub_cancel]
    cases m.rB.getLsbD j <;> simp [show 31 + j < 64 by omega]
  have hb : (m.rB.setWidth 64).getLsbD j = m.rB.getLsbD j := by
    rw [BitVec.getLsbD_setWidth, decide_eq_true (by omega), Bool.true_and]
  rw [BitVec.and_twoPow, htop, signProduct, partialProduct, hb]
  cases m.rA.msb <;> cases m.rB.getLsbD j <;> simp [BitVec.twoPow_eq, BitVec.shiftLeft_add]

theorem wPp_signed (hs : m.rSigned = true) {j : ℕ} (hj : j < 31) :
    m.wPp j = m.wPpUs j - 2 * m.signProduct j + BitVec.twoPow 64 (31 + j) +
      if j = 0 then BitVec.twoPow 64 32 else 0 := by
  have hflip : m.wPpUs j ^^^ BitVec.twoPow 64 (31 + j) =
      m.wPpUs j - 2 * m.signProduct j + BitVec.twoPow 64 (31 + j) := by
    rw [xor_eq_add_sub, m.wPpUs_and_top (by omega)]
    ring
  by_cases h0 : j = 0
  · subst h0
    have h32 : (m.wPpUs 0 ^^^ BitVec.twoPow 64 31) &&& BitVec.twoPow 64 32 = 0 := by
      rw [BitVec.and_twoPow, BitVec.getLsbD_xor, m.getLsbD_wPpUs_eq_false (.inr (by decide))]
      rfl
    rw [wPp_zero, if_pos hs, if_pos rfl, ← BitVec.xor_assoc, xor_eq_add_sub, h32, ← hflip]
    ring
  · rw [m.wPp_middle h0 hj, if_pos hs, if_neg h0, hflip, add_zero]

/-! ### The sum of the partial products -/

/-- The second operand below its sign bit. -/
def lowB : BitVec 64 := ((m.rB.setWidth 64).setWidth 31).setWidth 64

/-- The sign bit of the second operand. -/
def topB : BitVec 64 := m.rB.setWidth 64 &&& BitVec.twoPow 64 31

theorem rB_of_setWidth : (m.rB.setWidth 64).setWidth 32 = m.rB := by
  rw [BitVec.setWidth_setWidth_of_le m.rB (show 32 ≤ 64 by decide), BitVec.setWidth_eq]

theorem setWidth_rB : m.rB.setWidth 64 = m.lowB + m.topB := by
  have h := BitVec.setWidth_setWidth_succ_eq_setWidth_setWidth_add_twoPow (m.rB.setWidth 64) 31
  rw [rB_of_setWidth] at h
  exact h

theorem sum_unsigned (hs : m.rSigned = false) :
    ∑ j ∈ Finset.range 32, m.wPp j = m.rA.setWidth 64 * m.rB.setWidth 64 := by
  have hrow : ∀ j ∈ Finset.range 32,
      m.wPp j = partialProduct (m.rA.setWidth 64) (m.rB.setWidth 64) j := by
    intro j hj
    have hj := Finset.mem_range.mp hj
    rw [m.wPp_unsigned hs hj, m.wPpUs_eq j hj]
  rw [Finset.sum_congr rfl hrow, sum_partialProduct, rB_of_setWidth]

/-- **The constants and the complemented products make the product signed.** -/
theorem sum_signed (hs : m.rSigned = true) :
    ∑ j ∈ Finset.range 32, m.wPp j = m.rA.signExtend 64 * m.rB.signExtend 64 := by
  have htwo : (2 : BitVec 64) * BitVec.twoPow 64 31 = BitVec.twoPow 64 32 := by decide
  have hA : m.rA.signExtend 64 =
      m.rA.setWidth 64 - 2 * (if m.rA.msb then BitVec.twoPow 64 31 else 0) := by
    rw [signExtend_eq_sub]
    split_ifs
    · rw [htwo]
    · rw [mul_zero]
  have hB : m.rB.signExtend 64 = m.lowB - m.topB := by
    have htop : (if m.rB.msb then BitVec.twoPow 64 32 else 0) = 2 * m.topB := by
      rw [topB, BitVec.and_twoPow, BitVec.getLsbD_setWidth, BitVec.msb_eq_getLsbD_last]
      cases m.rB.getLsbD 31
      · rfl
      · exact htwo.symm
    rw [signExtend_eq_sub, htop, setWidth_rB]
    ring
  have hrows : ∑ j ∈ Finset.range 31, m.wPp j =
      m.rA.setWidth 64 * m.lowB -
        2 * ((if m.rA.msb then BitVec.twoPow 64 31 else 0) * m.lowB) + lowField +
        BitVec.twoPow 64 32 := by
    have hus : ∑ j ∈ Finset.range 31, m.wPpUs j = m.rA.setWidth 64 * m.lowB := by
      rw [lowB, ← sum_partialProduct _ _ 30]
      exact Finset.sum_congr rfl fun j hj => m.wPpUs_eq j (by
        have := Finset.mem_range.mp hj
        omega)
    have hsp : ∑ j ∈ Finset.range 31, m.signProduct j =
        (if m.rA.msb then BitVec.twoPow 64 31 else 0) * m.lowB := sum_partialProduct _ _ 30
    have hmem : (0 : ℕ) ∈ Finset.range 31 := by decide
    have hconst : ∑ j ∈ Finset.range 31, BitVec.twoPow 64 (31 + j) = lowField := by decide
    rw [Finset.sum_congr rfl fun j hj => m.wPp_signed hs (Finset.mem_range.mp hj),
      Finset.sum_add_distrib, Finset.sum_add_distrib, Finset.sum_sub_distrib, ← Finset.mul_sum,
      hus, hsp, hconst, Finset.sum_ite_eq', if_pos hmem]
  have hlast : m.wPp 31 = BitVec.twoPow 64 63 + lowField +
      2 * ((if m.rA.msb then BitVec.twoPow 64 31 else 0) * m.topB) -
        m.rA.setWidth 64 * m.topB := by
    have h := m.wPp_last hs
    rw [m.wPpUs_and_top (j := 31) (by decide), signProduct, partialProduct_eq_mul,
      m.wPpUs_eq 31 (by decide), partialProduct_eq_mul] at h
    rw [topB]
    linear_combination h
  have hzero : lowField + BitVec.twoPow 64 32 + (BitVec.twoPow 64 63 + lowField) = 0 := by decide
  rw [Finset.sum_range_succ, hrows, hlast, hA, hB]
  linear_combination hzero

/-- The partial products add up to the product of the other build. -/
theorem sum_wPp {i : MulIn} (hA : m.rA = i.srcA) (hB : m.rB = i.srcB)
    (hs : m.rSigned = i.isSigned) : ∑ j ∈ Finset.range 32, m.wPp j = Mul.tMul i := by
  rw [Mul.tMul, ← hA, ← hB, ← hs]
  cases h : m.rSigned
  · exact m.sum_unsigned h
  · exact m.sum_signed h

/-! ### Four cycles -/

theorem csaValue_chains (pp : ℕ → BitVec 64) :
    csaValue (((List.range' 25 7).map pp).foldl csaRow (((List.range' 14 11).map pp).foldl csaRow
      (((List.range' 3 11).map pp).foldl csaRow
        (csaSum (pp 0) (pp 1) (pp 2), csaCarry (pp 0) (pp 1) (pp 2))))) =
      ∑ j ∈ Finset.range 32, pp j := by
  have hfirst : csaValue (csaSum (pp 0) (pp 1) (pp 2), csaCarry (pp 0) (pp 1) (pp 2)) =
      pp 0 + pp 1 + pp 2 := by
    rw [csaValue, BitVec.add_comm]
    exact csa_add _ _ _
  have hlist : List.range 32 = [0, 1, 2] ++ List.range' 3 11 ++ List.range' 14 11 ++
      List.range' 25 7 := by decide
  have hsum : ∑ j ∈ Finset.range 32, pp j = ((List.range 32).map pp).sum := rfl
  rw [csaValue_foldl, csaValue_foldl, csaValue_foldl, hfirst, hsum, hlist, List.map_append,
    List.map_append, List.map_append, List.sum_append, List.sum_append, List.sum_append]
  simp [add_assoc]

/-- **The product of an input is registered four cycles later**, whatever comes after it. -/
theorem rMul31_four (i₀ i₁ i₂ i₃ : MulIn) :
    ((((m.step i₀).step i₁).step i₂).step i₃).rMul31 = Mul.tMul i₀ := by
  have hpp : (((m.step i₀).step i₁).step i₂).chain29 =
      ((List.range' 25 7).map (m.step i₀).wPp).foldl csaRow
        (((List.range' 14 11).map (m.step i₀).wPp).foldl csaRow (m.step i₀).chain11) := rfl
  change csaValue (((m.step i₀).step i₁).step i₂).chain29 = Mul.tMul i₀
  rw [hpp, chain11, csaValue_chains]
  exact (m.step i₀).sum_wPp rfl rfl rfl

end MulArray

/-! ### Runs -/

/-- The build for an FPGA; reset leaves the data alone. -/
def mulMachine : Machine Mul MulIn where
  reset m := ∀ k, m.rComplete k = false ∧ m.rIsHigh k = false ∧ m.rRobPtr k = 0 ∧ m.rGprPtr k = 0
  step := Mul.step

/-- The other build; reset leaves the data alone. -/
def mulArrayMachine : Machine MulArray MulIn where
  reset m := ∀ k, m.rComplete k = false ∧ m.rIsHigh k = false ∧ m.rRobPtr k = 0 ∧ m.rGprPtr k = 0
  step := MulArray.step

/-- The tags of the two builds. -/
def SameTags (m : Mul) (a : MulArray) : Prop :=
  a.rComplete = m.rComplete ∧ a.rIsHigh = m.rIsHigh ∧ a.rRobPtr = m.rRobPtr ∧
    a.rGprPtr = m.rGprPtr

theorem SameTags.step {m : Mul} {a : MulArray} (h : SameTags m a) (i : MulIn) :
    SameTags (m.step i) (a.step i) := by
  obtain ⟨hc, hh, hr, hg⟩ := h
  simp only [SameTags, MulArray.step, Mul.step, hc, hh, hr, hg, and_self]

theorem SameTags.run {m : Mul} {a : MulArray} (h : SameTags m a) (is : List MulIn) :
    SameTags (mulMachine.run m is) (mulArrayMachine.run a is) := by
  induction is generalizing m a with
  | nil => exact h
  | cons i is ih => exact ih (h.step i)

theorem sameTags_of_reset {m : Mul} {a : MulArray} (hm : mulMachine.reset m)
    (ha : mulArrayMachine.reset a) : SameTags m a := by
  refine ⟨?_, ?_, ?_, ?_⟩
  · funext k
    rw [(ha k).1, (hm k).1]
  · funext k
    rw [(ha k).2.1, (hm k).2.1]
  · funext k
    rw [(ha k).2.2.1, (hm k).2.2.1]
  · funext k
    rw [(ha k).2.2.2, (hm k).2.2.2]

theorem run_four {σ : Type*} (M : Machine σ MulIn) (s : σ) {is js ks : List MulIn} {i : MulIn}
    (his : is = js ++ i :: ks) (hks : ks.length = mulLat) :
    ∃ t i₁ i₂ i₃, M.run s is = M.step (M.step (M.step (M.step t i) i₁) i₂) i₃ := by
  obtain ⟨i₁, i₂, i₃, rfl⟩ := List.length_eq_three.mp hks
  refine ⟨M.run s js, i₁, i₂, i₃, ?_⟩
  rw [his, Machine.run_append]
  rfl

/-- Nothing completes before the fourth cycle. -/
theorem complete_of_short {m : Mul} (hm : mulMachine.reset m) {is : List MulIn}
    (h : is.length ≤ mulLat) : (mulMachine.run m is).complete = false := by
  have h0 : ∀ k, m.rComplete k = false := fun k => (hm k).1
  match is, h with
  | [], _ => exact h0 3
  | [_], _ => exact h0 2
  | [_, _], _ => exact h0 1
  | [_, _, _], _ => exact h0 0

theorem complete_iff {m : Mul} (hm : mulMachine.reset m) (is : List MulIn) :
    (mulMachine.run m is).complete = true ↔
      ∃ js i ks, is = js ++ i :: ks ∧ ks.length = mulLat ∧ i.go = true := by
  constructor
  · intro h
    by_cases hlen : is.length ≤ mulLat
    · rw [complete_of_short hm hlen] at h
      cases h
    · have hlt : is.length - (mulLat + 1) < is.length := by
        rw [mulLat] at hlen ⊢
        omega
      have hsplit := List.take_append_drop (is.length - (mulLat + 1)) is
      rw [List.drop_eq_getElem_cons hlt] at hsplit
      have hks : (is.drop (is.length - (mulLat + 1) + 1)).length = mulLat := by
        rw [List.length_drop]
        rw [mulLat] at hlen ⊢
        omega
      obtain ⟨t, i₁, i₂, i₃, hrun⟩ := run_four mulMachine m hsplit.symm hks
      rw [hrun] at h
      exact ⟨_, _, _, hsplit.symm, hks, h⟩
  · rintro ⟨js, i, ks, his, hks, hgo⟩
    obtain ⟨t, i₁, i₂, i₃, hrun⟩ := run_four mulMachine m his hks
    rw [hrun]
    exact hgo

theorem tMul_value {op : Opcode} (hop : usesMul op = true) {i : MulIn}
    (hs : i.isSigned = (op == .mul || op == .mulh)) :
    (if op == .mulhu || op == .mulh then ((Mul.tMul i).extractLsb' 32 32).setWidth 64
      else Mul.tMul i).setWidth 32 = mExtValue op i.srcA i.srcB := by
  have hlow : (i.srcA.signExtend 64 * i.srcB.signExtend 64).setWidth 32 = i.srcA * i.srcB := by
    rw [BitVec.setWidth_mul _ _ (by decide), setWidth_signExtend _ (by decide),
      setWidth_signExtend _ (by decide), BitVec.signExtend_eq, BitVec.signExtend_eq]
  have hhigh (p : BitVec 64) : ((p.extractLsb' 32 32).setWidth 64).setWidth 32 =
      p.extractLsb' 32 32 := by
    rw [BitVec.setWidth_setWidth_of_le _ (by decide), BitVec.setWidth_eq]
  have hcase : op = .mul ∨ op = .mulh ∨ op = .mulhu := by
    cases op <;> first | exact absurd hop (by decide) | simp
  obtain rfl | rfl | rfl := hcase
  · have hmul : Mul.tMul i = i.srcA.signExtend 64 * i.srcB.signExtend 64 := if_pos hs
    rw [if_neg (by decide), hmul]
    exact hlow
  · have hmul : Mul.tMul i = i.srcA.signExtend 64 * i.srcB.signExtend 64 := if_pos hs
    rw [if_pos (by decide), hhigh, hmul]
    rfl
  · have hmul : Mul.tMul i = i.srcA.setWidth 64 * i.srcB.setWidth 64 := by
      rw [Mul.tMul, hs]
      rfl
    rw [if_pos (by decide), hhigh, hmul]
    rfl

/-- **The two builds of the multiplier agree, and with the interpreter.**  Over every run from
reset, whatever the data registers hold at first, they complete in the same cycles with the same
tags, four cycles after each `go` and at no other time; from the fourth cycle on they return the
same product, and its lower half is what the interpreter writes for the multiplication that the
execution unit started four cycles ago. -/
theorem multiplier_builds_agree {m : Mul} {a : MulArray} (hm : mulMachine.reset m)
    (ha : mulArrayMachine.reset a) (is : List MulIn) :
    (mulArrayMachine.run a is).complete = (mulMachine.run m is).complete ∧
    (mulArrayMachine.run a is).robPtrOut = (mulMachine.run m is).robPtrOut ∧
    (mulArrayMachine.run a is).prfPtrOut = (mulMachine.run m is).prfPtrOut ∧
    ((mulArrayMachine.run a is).complete = true ↔
      ∃ js i ks, is = js ++ i :: ks ∧ ks.length = mulLat ∧ i.go = true) ∧
    ∀ js i ks, is = js ++ i :: ks → ks.length = mulLat →
      (mulArrayMachine.run a is).y = (mulMachine.run m is).y ∧
      (mulArrayMachine.run a is).robPtrOut = i.robPtrIn ∧
      (mulArrayMachine.run a is).prfPtrOut = i.prfPtrIn ∧
      ∀ (e : Exec) (ei : ExecIn) (f : InsnFetch) (s s' : Iss), i = e.mulIn ei →
        e.intUop.op = (decodeRiscv f).op → usesMul (decodeRiscv f).op = true →
        e.tSrcA = s.gpr (Iss.rs1 f.data) → e.tSrcB = s.gpr (Iss.rs2 f.data) →
        s.execInsn f.data = some s' →
          (mulArrayMachine.run a is).y.setWidth 32 = s'.gpr (Iss.rd f.data) := by
  obtain ⟨hc, hh, hr, hg⟩ := (sameTags_of_reset hm ha).run is
  have hcomplete : (mulArrayMachine.run a is).complete = (mulMachine.run m is).complete :=
    congrFun hc 3
  refine ⟨hcomplete, congrFun hr 3, congrFun hg 3, ?_, ?_⟩
  · rw [hcomplete]
    exact complete_iff hm is
  · intro js i ks his hks
    obtain ⟨t, i₁, i₂, i₃, hrun⟩ := run_four mulMachine m his hks
    obtain ⟨u, j₁, j₂, j₃, hrun'⟩ := run_four mulArrayMachine a his hks
    have hy : (mulMachine.run m is).y =
        if i.isHigh then ((Mul.tMul i).extractLsb' 32 32).setWidth 64 else Mul.tMul i := by
      rw [hrun]
      rfl
    have hmul : (mulArrayMachine.run a is).rMul31 = Mul.tMul i := by
      rw [hrun']
      exact u.rMul31_four i j₁ j₂ j₃
    have hhigh : (mulArrayMachine.run a is).rIsHigh (Mul.stage mulLat) = i.isHigh := by
      rw [hrun']
      rfl
    have hy' : (mulArrayMachine.run a is).y =
        if i.isHigh then ((Mul.tMul i).extractLsb' 32 32).setWidth 64 else Mul.tMul i := by
      rw [MulArray.y, hmul, hhigh]
    refine ⟨hy'.trans hy.symm, ?_, ?_, ?_⟩
    · rw [hrun']
      rfl
    · rw [hrun']
      rfl
    · rintro e ei f s s' rfl hop huse hA hB hex
      have hunit : (decodeRiscv f).op.usesUnit = true := by rw [Opcode.usesUnit, huse, Bool.true_or]
      have hsigned : (e.mulIn ei).isSigned =
          ((decodeRiscv f).op == .mul || (decodeRiscv f).op == .mulh) := by
        rw [← hop]
        rfl
      have hhigh' : (e.mulIn ei).isHigh =
          ((decodeRiscv f).op == .mulhu || (decodeRiscv f).op == .mulh) := by
        rw [← hop]
        rfl
      have hval := tMul_value huse hsigned
      rw [hy', hhigh', hval, mExt_exec hunit hex, ← hA, ← hB]
      rfl

/-- Zeroed registers. -/
def MulArray.zero : MulArray where
  rComplete _ := false
  rIsHigh _ := false
  rRobPtr _ := 0
  rGprPtr _ := 0
  rA := 0
  rB := 0
  rSigned := false
  rPp _ _ := 0
  rS11 := 0
  rC11 := 0
  rS22 := 0
  rC22 := 0
  rMul31 := 0

/-- `mulh x1,x2,x3` of `-7` by `2` is `-1` in the carry-save array. -/
theorem multiplier_builds_agree_mulh :
    ((mulArrayMachine.run MulArray.zero (((Exec.starting 0x023110b3 (-7) 2).mulIn .idle) ::
      List.replicate 3 (Exec.init.mulIn .idle))).y).setWidth 32 = -1 :=
  (((multiplier_builds_agree (m := Exec.init.mul) (a := MulArray.zero) (fun _ => ⟨rfl, rfl, rfl, rfl⟩)
    (fun _ => ⟨rfl, rfl, rfl, rfl⟩) _).2.2.2.2 [] _ _ rfl rfl).2.2.2 (Exec.starting 0x023110b3 (-7) 2)
      .idle ⟨0x023110b3, 0, 0, false, 0⟩ (Iss.holding (-7) 2) _ rfl rfl rfl rfl rfl rfl).trans
    (by decide)

end Rv32Core
