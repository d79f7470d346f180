import Rv32Core.Lib.Bits

/-! # The funnel shifter

`shift_right` for any `LG_W`.  A double word holds the data with zeroes below it for a left shift
and copies of the sign or zeroes above it for a right shift, and one right shifter serves all
three: a left shift by `d` is a right shift by `W - d`, a number of `LG_W + 1` bits because `d` may
be zero.  The build for an FPGA shifts at once, the other through `LG_W + 1` stages that each shift
by a power of two; both give the same word.

`W` and the amounts `1 << i` are parameter expressions of the source and are numbers here. -/

namespace Rv32Core.Shifter

variable (lgW : ℕ)

/-- `localparam W`. -/
abbrev W : ℕ := 2 ^ lgW

/-! ### The module -/

/-- `w_sb`. -/
def wSb (isSigned : Bool) (data : BitVec (W lgW)) : Bool := if isSigned then data.msb else false

/-- `w_data`. -/
def wData (isLeft isSigned : Bool) (data : BitVec (W lgW)) : BitVec (W lgW + W lgW) :=
  if isLeft then data ++ 0#(W lgW)
  else (if wSb lgW isSigned data then BitVec.allOnes (W lgW) else 0#(W lgW)) ++ data

/-- `w_inv_dist`. -/
def wInvDist (distance : BitVec lgW) : BitVec (lgW + 1) :=
  BitVec.ofNat (lgW + 1) (W lgW) - distance.setWidth (lgW + 1)

/-- `w_distance`. -/
def wDistance (isLeft : Bool) (distance : BitVec lgW) : BitVec (lgW + 1) :=
  if isLeft then wInvDist lgW distance else distance.setWidth (lgW + 1)

/-- `y` with `FPGA`. -/
def shiftRight (isLeft isSigned : Bool) (data : BitVec (W lgW)) (distance : BitVec lgW) :
    BitVec (W lgW) :=
  (wData lgW isLeft isSigned data >>> wDistance lgW isLeft distance).setWidth (W lgW)

/-- `w_shift[i]`, the word after stage `i`. -/
def wShift {v : ℕ} (data : BitVec v) (distance : BitVec (lgW + 1)) : ℕ → BitVec v
  | 0 => if distance.getLsbD 0 then data >>> 1 else data
  | i + 1 =>
      if distance.getLsbD (i + 1) then wShift data distance i >>> (1 <<< (i + 1))
      else wShift data distance i

/-- `y` without `FPGA`. -/
def shiftRightStaged (isLeft isSigned : Bool) (data : BitVec (W lgW)) (distance : BitVec lgW) :
    BitVec (W lgW) :=
  (wShift lgW (wData lgW isLeft isSigned data) (wDistance lgW isLeft distance) lgW).setWidth (W lgW)

/-- The shift that is asked for. -/
def shifted (isLeft isSigned : Bool) (data : BitVec (W lgW)) (distance : BitVec lgW) :
    BitVec (W lgW) :=
  if isLeft then data <<< distance.toNat
  else if isSigned then data.sshiftRight distance.toNat
  else data >>> distance.toNat

/-! ### The stages -/

variable {lgW} {v : ℕ}

theorem shiftRight_and_twoPow (x : BitVec v) (d : BitVec (lgW + 1)) {i : ℕ} (hi : i ≤ lgW) :
    x >>> (d &&& BitVec.twoPow (lgW + 1) i) = if d.getLsbD i then x >>> (1 <<< i) else x := by
  rw [BitVec.and_twoPow]
  cases d.getLsbD i with
  | false => simp
  | true =>
      rw [if_pos rfl, if_pos rfl, BitVec.ushiftRight_eq', BitVec.toNat_twoPow_of_lt (by omega),
        Nat.one_shiftLeft]

/-- Stage `i` has shifted by the bits of the distance up to bit `i`. -/
theorem wShift_eq (x : BitVec v) (d : BitVec (lgW + 1)) {i : ℕ} (hi : i ≤ lgW) :
    wShift lgW x d i = BitVec.ushiftRightRec x d i := by
  induction i with
  | zero =>
      rw [BitVec.ushiftRightRec_zero, shiftRight_and_twoPow x d hi]
      rfl
  | succ i ih =>
      rw [BitVec.ushiftRightRec_succ, shiftRight_and_twoPow _ d hi, ← ih (by omega)]
      rfl

theorem wShift_last (x : BitVec v) (d : BitVec (lgW + 1)) : wShift lgW x d lgW = x >>> d := by
  rw [wShift_eq x d le_rfl]
  exact (BitVec.shiftRight_eq_ushiftRightRec x d).symm

/-! ### The distances -/

/-- The inverted distance needs the extra bit: it is the whole width at distance zero. -/
theorem toNat_wInvDist (d : BitVec lgW) : (wInvDist lgW d).toNat = W lgW - d.toNat := by
  have hd := d.isLt
  have hw : 2 ^ (lgW + 1) = 2 * W lgW := Nat.pow_succ'
  have hp : 0 < W lgW := Nat.two_pow_pos lgW
  rw [wInvDist, BitVec.toNat_sub, BitVec.toNat_setWidth_of_le (by omega), BitVec.toNat_ofNat, hw,
    Nat.mod_eq_of_lt (by omega : W lgW < 2 * W lgW)]
  have hs : 2 * W lgW - d.toNat + W lgW = (W lgW - d.toNat) + 2 * W lgW := by omega
  rw [hs, Nat.add_mod_right, Nat.mod_eq_of_lt (by omega)]

theorem shiftRight_left (s : Bool) (x : BitVec (W lgW)) (d : BitVec lgW) :
    shiftRight lgW true s x d = x <<< d.toNat := by
  show ((x ++ 0#(W lgW)) >>> (wInvDist lgW d).toNat).setWidth (W lgW) = _
  rw [toNat_wInvDist]
  exact Bits.funnel_left x d.isLt.le

theorem shiftRight_right (s : Bool) (x : BitVec (W lgW)) (d : BitVec lgW) :
    shiftRight lgW false s x d = if s then x.sshiftRight d.toNat else x >>> d.toNat := by
  have hd : (d.setWidth (lgW + 1)).toNat = d.toNat := BitVec.toNat_setWidth_of_le (by omega)
  show (((if wSb lgW s x then BitVec.allOnes (W lgW) else 0#(W lgW)) ++ x) >>>
    (d.setWidth (lgW + 1)).toNat).setWidth (W lgW) = _
  rw [hd, Bits.funnel_right x _ d.isLt.le]
  cases s with
  | false => rfl
  | true =>
      cases hm : x.msb with
      | false => rw [BitVec.sshiftRight_eq_of_msb_false hm]; simp [wSb, hm]
      | true => rw [BitVec.sshiftRight_eq_of_msb_true hm]; simp [wSb, hm]

theorem shiftRight_shifts (isLeft isSigned : Bool) (data : BitVec (W lgW))
    (distance : BitVec lgW) :
    shiftRight lgW isLeft isSigned data distance = shifted lgW isLeft isSigned data distance := by
  cases isLeft with
  | false => exact shiftRight_right isSigned data distance
  | true => exact shiftRight_left isSigned data distance

theorem staged_eq (isLeft isSigned : Bool) (data : BitVec (W lgW)) (distance : BitVec lgW) :
    shiftRightStaged lgW isLeft isSigned data distance =
      shiftRight lgW isLeft isSigned data distance := by
  rw [shiftRightStaged, wShift_last]
  rfl

/-- **Both builds are the funnel shifter.**  For every width, word and distance they return the
logical left shift, the arithmetic right shift or the logical right shift that is asked for.  A
left shift by zero runs through the distance `W`, which only `LG_W + 1` bits hold, and returns the
word itself. -/
theorem funnel_shifter (lgW : ℕ) (isLeft isSigned : Bool) (data : BitVec (2 ^ lgW))
    (distance : BitVec lgW) :
    shiftRight lgW isLeft isSigned data distance =
        shiftRightStaged lgW isLeft isSigned data distance ∧
      shiftRight lgW isLeft isSigned data distance =
        (if isLeft then data <<< distance.toNat
          else if isSigned then data.sshiftRight distance.toNat
          else data >>> distance.toNat) ∧
      (wInvDist lgW 0).toNat = 2 ^ lgW ∧ shiftRight lgW true isSigned data 0 = data := by
  refine ⟨(staged_eq isLeft isSigned data distance).symm,
    shiftRight_shifts isLeft isSigned data distance, ?_, ?_⟩
  · exact toNat_wInvDist 0
  · rw [shiftRight_left]
    simp

end Rv32Core.Shifter
