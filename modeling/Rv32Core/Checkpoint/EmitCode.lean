import Rv32Core.Checker.Words

/-! # The register-restore code of a checkpoint

`emitCodeForInitialRegisterValues` writes two instructions for each of `x1` to `x31`: LUI and ADDI
where bit 11 of the value is set, LUI and ORI where it is clear, then the break and a run of NOPs.
The values are `int` in the source: the arithmetic is on integers here, and a result outside the
range of `int`, or a failed assertion, is `none`. -/

namespace Rv32Core.Checkpoint

open Iss

/-! ### The code of one register -/

/-- A signed result that does not overflow. -/
def int32 (x : ℤ) : Option ℤ := if -2 ^ 31 ≤ x ∧ x < 2 ^ 31 then some x else none

/-- The constants `k` and `d` of a value with bit 11 set. -/
def splitValue (g : ℤ) : Option (ℤ × ℤ) :=
  (int32 (g.tdiv 4096 * 4096)).bind fun k => (int32 (g - k)).bind fun d =>
    if 0 ≤ d then
      -- round up
      (int32 (g + 4095)).bind fun n => (int32 (n.tdiv 4096 * 4096)).bind fun k =>
        (int32 (g - k)).map fun d => (k, d)
    else some (k, d)

/-- `(k & 0xfffff000) | (i<<7) | 0x37`. -/
def luiWord (k : Word) (i : ℕ) : Word :=
  k &&& 0xfffff000#32 ||| BitVec.ofNat 32 i <<< 7 ||| 0x37#32

/-- `((d & 0xfff) << 20) | (i<<15) | sel << 12 | (i<<7) | 0x13`. -/
def opImmWord (d sel : Word) (i : ℕ) : Word :=
  (d &&& 0xfff#32) <<< 20 ||| BitVec.ofNat 32 i <<< 15 ||| sel <<< 12 ||| BitVec.ofNat 32 i <<< 7 |||
    0x13#32

/-- The two instructions for register `i` with the value `g`. -/
def regCode (g : Word) (i : ℕ) : Option (List Word) :=
  if g.getLsbD 11 then
    (splitValue g.toInt).bind fun (k, d) =>
      -- the two assertions
      if d >>> (12 : ℕ) = -1 ∧ int32 (k + d) = some g.toInt then
        some [luiWord (BitVec.ofInt 32 k) i, opImmWord (BitVec.ofInt 32 d) 0 i]
      else none
  else some [luiWord g i, opImmWord g 6 i]

/-! ### Emission -/

/-- `*reinterpret_cast<int*>(&s.mem[pc]) = w; pc += 4`. -/
def store (m : (ℕ → BitVec 8) × Word) (w : Word) : (ℕ → BitVec 8) × Word :=
  (putBytes m.1 m.2.toNat 4 w, m.2 + 4)

/-- The loop over the registers. -/
def emitRegs (gpr : ArchReg → Word) :
    List ℕ → (ℕ → BitVec 8) × Word → Option ((ℕ → BitVec 8) × Word)
  | [], m => some m
  | i :: is, m => (regCode (gpr (BitVec.ofNat 5 i)) i).bind fun ws => emitRegs gpr is (ws.foldl store m)

/-- `emitCodeForInitialRegisterValues`. -/
def emitCodeForInitialRegisterValues (s : Iss) (pc : Word) : Option Iss :=
  (emitRegs s.gpr (List.range' 1 31) (s.mem, pc)).map fun m =>
    { s with mem := ((List.replicate 128 0x13).foldl store (store m 0x73)).1 }

/-! ### Splitting a value -/

theorem int32_of_range {x : ℤ} (h1 : -2 ^ 31 ≤ x) (h2 : x < 2 ^ 31) : int32 x = some x :=
  if_pos ⟨h1, h2⟩

/-- A value with bit 11 set is split into a multiple of 4096 and a negative number of 12 bits,
unless it is too large to be rounded up. -/
theorem splitValue_eq {g : ℤ} (hmin : -2 ^ 31 ≤ g) (hmax : g < 2 ^ 31) (h : 2048 ≤ g % 4096) :
    splitValue g =
      if g < 0x7ffff800 then some (g - g % 4096 + 4096, g % 4096 - 4096) else none := by
  unfold splitValue
  rcases Int.lt_or_le g 0 with hneg | hpos
  · -- truncation rounds a negative value up
    have hk : g.tdiv 4096 * 4096 = g - g % 4096 + 4096 := by
      have ht : g.tdiv 4096 = -(-g / 4096) := by
        rw [← Int.tdiv_eq_ediv_of_nonneg (by omega), Int.neg_tdiv, neg_neg]
      rw [ht]
      omega
    have hd : g - (g - g % 4096 + 4096) = g % 4096 - 4096 := by omega
    have hlt : ¬ 0 ≤ g % 4096 - 4096 := by omega
    rw [hk, int32_of_range (by omega) (by omega), Option.bind_some, hd,
      int32_of_range (by omega) (by omega), Option.bind_some, if_neg hlt, if_pos (by omega)]
  · have hk : g.tdiv 4096 * 4096 = g - g % 4096 := by
      rw [Int.tdiv_eq_ediv_of_nonneg hpos]
      omega
    have hd : g - (g - g % 4096) = g % 4096 := by omega
    rw [hk, int32_of_range (by omega) (by omega), Option.bind_some, hd,
      int32_of_range (by omega) (by omega), Option.bind_some, if_pos (by omega)]
    by_cases hg : g < 0x7ffff800
    · have hn : (g + 4095).tdiv 4096 * 4096 = g - g % 4096 + 4096 := by
        rw [Int.tdiv_eq_ediv_of_nonneg (by omega)]
        omega
      have hd' : g - (g - g % 4096 + 4096) = g % 4096 - 4096 := by omega
      rw [if_pos hg, int32_of_range (by omega) (by omega), Option.bind_some, hn,
        int32_of_range (by omega) (by omega), Option.bind_some, hd',
        int32_of_range (by omega) (by omega), Option.map_some]
    · have hover : int32 (g + 4095) = none := if_neg (by omega)
      rw [if_neg hg, hover, Option.bind_none]

theorem getLsbD_eleven (g : Word) : g.getLsbD 11 = decide (2048 ≤ g.toInt % 4096) := by
  have hmod : g.toInt % 4096 = (g.toNat % 4096 : ℕ) := by
    rw [BitVec.toInt_eq_toNat_cond]
    split_ifs <;> omega
  rw [hmod, BitVec.getLsbD, Nat.testBit_eq_decide_div_mod_eq]
  congr 1
  apply propext
  omega

/-- The values the code can be emitted for: with bit 11 set, those that can be rounded up. -/
def Emittable (g : Word) : Prop := g.toInt < 0x7ffff800

instance (g : Word) : Decidable (Emittable g) := inferInstanceAs (Decidable (_ < _))

/-! ### The instructions -/

theorem ofNat_eq {i : ℕ} (hi : i < 32) : BitVec.ofNat 32 i = (BitVec.ofNat 5 i).setWidth 32 := by
  apply BitVec.eq_of_toNat_eq
  rw [BitVec.toNat_setWidth, BitVec.toNat_ofNat, BitVec.toNat_ofNat]
  omega

theorem and_fff (d : Word) : d &&& 0xfff#32 = (d.setWidth 12).setWidth 32 := by
  apply BitVec.eq_of_toNat_eq
  have h : d.toNat &&& 0xfff = d.toNat % 2 ^ 12 := Nat.and_two_pow_sub_one_eq_mod d.toNat 12
  rw [BitVec.toNat_and, BitVec.toNat_setWidth, BitVec.toNat_setWidth, BitVec.toNat_ofNat,
    Nat.mod_eq_of_lt (show 0xfff < 2 ^ 32 by decide), h]
  omega

theorem luiWord_eq (k : Word) {i : ℕ} (hi : i < 32) :
    luiWord k i = k.extractLsb' 12 20 ++ BitVec.ofNat 5 i ++ 0x37#7 := by
  have hu : k &&& 0xfffff000#32 = k.extractLsb' 12 20 ++ 0#12 := upper_eq k
  have hk : k.extractLsb' 12 20 ++ 0#12 = (k.extractLsb' 12 20).setWidth 32 <<< 12 := by
    rw [← BitVec.setWidth_eq (_ ++ _), ← BitVec.shiftLeft_zero (BitVec.setWidth 32 _)]
    simp only [Bits.setWidth_append_shiftLeft, BitVec.setWidth_zero, BitVec.zero_shiftLeft,
      BitVec.or_zero]
  rw [luiWord, hu, hk, ofNat_eq hi, ← BitVec.setWidth_eq (_ ++ 0x37#7),
    ← BitVec.shiftLeft_zero (BitVec.setWidth 32 (_ ++ _))]
  simp only [Bits.setWidth_append_shiftLeft]
  rfl

theorem opImmWord_eq (d : Word) (sel : BitVec 3) {i : ℕ} (hi : i < 32) :
    opImmWord d (sel.setWidth 32) i =
      d.setWidth 12 ++ BitVec.ofNat 5 i ++ sel ++ BitVec.ofNat 5 i ++ 0x13#7 := by
  rw [opImmWord, and_fff, ofNat_eq hi, ← BitVec.setWidth_eq (_ ++ 0x13#7),
    ← BitVec.shiftLeft_zero (BitVec.setWidth 32 (_ ++ _))]
  simp only [Bits.setWidth_append_shiftLeft]
  rfl


theorem extract_middle {n m l : ℕ} (x : BitVec n) (y : BitVec m) (z : BitVec l) :
    (x ++ y ++ z).extractLsb' l m = y := by
  rw [BitVec.extractLsb'_append_eq_of_le le_rfl, Nat.sub_self,
    BitVec.extractLsb'_append_eq_of_add_le (by omega), BitVec.extractLsb'_eq_self]

theorem fields_append (imm : BitVec 12) (r1 : BitVec 5) (f3 : BitVec 3) (r : BitVec 5)
    (op : BitVec 7) :
    (imm ++ r1 ++ f3 ++ r ++ op).extractLsb' 0 7 = op ∧ rd (imm ++ r1 ++ f3 ++ r ++ op) = r ∧
      sel (imm ++ r1 ++ f3 ++ r ++ op) = f3 ∧ rs1 (imm ++ r1 ++ f3 ++ r ++ op) = r1 ∧
      immI (imm ++ r1 ++ f3 ++ r ++ op) = imm.signExtend 32 := by
  have hskip {n l k m : ℕ} (x : BitVec n) (y : BitVec l) (h : l ≤ k) :
      (x ++ y).extractLsb' k m = x.extractLsb' (k - l) m := BitVec.extractLsb'_append_eq_of_le h
  refine ⟨?_, extract_middle _ _ _, ?_, ?_, ?_⟩
  · exact (BitVec.extractLsb'_append_eq_of_add_le (by decide)).trans (BitVec.extractLsb'_eq_self ..)
  · exact (hskip _ op (by decide)).trans (extract_middle _ _ _)
  · exact ((hskip _ op (by decide)).trans (hskip _ r (by decide))).trans (extract_middle _ _ _)
  · refine congrArg (BitVec.signExtend 32) ?_
    exact ((((hskip _ op (by decide)).trans (hskip _ r (by decide))).trans
      (hskip _ f3 (by decide))).trans (hskip _ r1 (by decide))).trans (BitVec.extractLsb'_eq_self ..)

/-! ### The value the two instructions leave -/

/-- The value left by LUI of `k` and the operation `sel` on the low bits of `d`. -/
def codeValue (k d : Word) (sel : BitVec 3) : Word :=
  if sel = 0 then (k &&& 0xfffff000#32) + (d.setWidth 12).signExtend 32
  else (k &&& 0xfffff000#32) ||| (d.setWidth 12).signExtend 32

theorem signExtend_ofInt {d : ℤ} (h1 : -2048 ≤ d) (h2 : d < 2048) :
    ((BitVec.ofInt 32 d).setWidth 12).signExtend 32 = BitVec.ofInt 32 d := by
  apply BitVec.eq_of_toInt_eq
  rw [BitVec.toInt_signExtend_of_le (by decide), BitVec.toInt_setWidth, BitVec.toNat_ofInt,
    BitVec.toInt_ofInt]
  simp only [Int.bmod_def]
  omega

theorem toNat_and_upper (x : Word) : (x &&& 0xfffff000#32).toNat = x.toNat / 4096 * 4096 := by
  have hu : x &&& 0xfffff000#32 = x.extractLsb' 12 20 ++ 0#12 := upper_eq x
  have := x.isLt
  rw [hu, BitVec.toNat_append, BitVec.extractLsb'_toNat, BitVec.toNat_ofNat, Nat.zero_mod,
    Nat.or_zero, Nat.shiftLeft_eq, Nat.shiftRight_eq_div_pow]
  omega

theorem and_ofInt {k : ℤ} (h : k % 4096 = 0) :
    BitVec.ofInt 32 k &&& 0xfffff000#32 = BitVec.ofInt 32 k := by
  apply BitVec.eq_of_toNat_eq
  rw [toNat_and_upper, BitVec.toNat_ofInt]
  omega

/-- The code of a value that can be rounded up leaves the value. -/
theorem regCode_of_emittable {g : Word} (h : Emittable g) : ∃ k d sel, (sel = 0#3 ∨ sel = 6#3) ∧
    codeValue k d sel = g ∧ ∀ i, regCode g i = some [luiWord k i, opImmWord d (sel.setWidth 32) i] := by
  have hmin : -2 ^ 31 ≤ g.toInt := BitVec.le_toInt g
  have hmax : g.toInt < 2 ^ 31 := BitVec.toInt_lt
  by_cases hbit : g.getLsbD 11 = true
  · have hlow : 2048 ≤ g.toInt % 4096 := by
      rwa [getLsbD_eleven, decide_eq_true_eq] at hbit
    refine ⟨BitVec.ofInt 32 (g.toInt - g.toInt % 4096 + 4096),
      BitVec.ofInt 32 (g.toInt % 4096 - 4096), 0, .inl rfl, ?_, fun i => ?_⟩
    · rw [codeValue, if_pos rfl, and_ofInt (by omega), signExtend_ofInt (by omega) (by omega),
        ← BitVec.ofInt_add]
      have hsum : g.toInt - g.toInt % 4096 + 4096 + (g.toInt % 4096 - 4096) = g.toInt := by omega
      rw [hsum, BitVec.ofInt_toInt]
    · have hsum : g.toInt - g.toInt % 4096 + 4096 + (g.toInt % 4096 - 4096) = g.toInt := by omega
      have hshift : (g.toInt % 4096 - 4096) >>> (12 : ℕ) = -1 := by
        rw [Int.shiftRight_eq_div_pow]
        omega
      have hlt : g.toInt < 0x7ffff800 := h
      rw [regCode, if_pos hbit, splitValue_eq hmin hmax hlow, if_pos hlt, Option.bind_some]
      simp only [hsum, hshift, int32_of_range hmin hmax, and_self, if_true]
      rfl
  · refine ⟨g, g, 6, .inr rfl, ?_, fun i => if_neg hbit⟩
    have hmsb : (g.setWidth 12).msb = false := by
      rw [BitVec.msb_setWidth]
      simpa using hbit
    have hmask : 0xfffff000#32 ||| 0xfff#32 = BitVec.allOnes 32 := by decide
    rw [codeValue, if_neg (by decide), BitVec.signExtend_eq_setWidth_of_msb_false hmsb, ← and_fff,
      ← BitVec.and_or_distrib_left, hmask, BitVec.and_allOnes]

theorem regCode_of_not_emittable {g : Word} (h : ¬ Emittable g) (i : ℕ) : regCode g i = none := by
  have hmin : -2 ^ 31 ≤ g.toInt := BitVec.le_toInt g
  have hmax : g.toInt < 2 ^ 31 := BitVec.toInt_lt
  have hlow : 2048 ≤ g.toInt % 4096 := by
    unfold Emittable at h
    omega
  have hbit : g.getLsbD 11 = true := by rwa [getLsbD_eleven, decide_eq_true_eq]
  have hnot : ¬ g.toInt < 0x7ffff800 := h
  rw [regCode, if_pos hbit, splitValue_eq hmin hmax hlow, if_neg hnot, Option.bind_none]

/-! ### The emitted code in memory -/

/-- The words `ws` lie at address `a`. -/
def CodeAt (mem : ℕ → BitVec 8) : ℕ → List Word → Prop
  | _, [] => True
  | a, w :: ws => bytes mem a 4 = w ∧ CodeAt mem (a + 4) ws

theorem codeAt_append {mem : ℕ → BitVec 8} {a : ℕ} {xs ys : List Word} :
    CodeAt mem a (xs ++ ys) ↔ CodeAt mem a xs ∧ CodeAt mem (a + 4 * xs.length) ys := by
  induction xs generalizing a with
  | nil => simp [CodeAt]
  | cons x xs ih =>
      rw [List.cons_append, CodeAt, CodeAt, ih, and_assoc, List.length_cons]
      rw [show a + 4 + 4 * xs.length = a + 4 * (xs.length + 1) by omega]

theorem bytes_putBytes (mem : ℕ → BitVec 8) (a : ℕ) (w : Word) :
    bytes (putBytes mem a 4 w) a 4 = w := by
  apply BitVec.eq_of_getLsbD_eq
  intro j hj
  have hin : a ≤ a + j / 8 ∧ a + j / 8 < a + 4 := by omega
  have hoff : 8 * (a + j / 8 - a) + j % 8 = j := by omega
  have hlt : j % 8 < 8 := Nat.mod_lt _ (by omega)
  rw [getLsbD_bytes, putBytes, if_pos hin, BitVec.getLsbD_extractLsb', hoff]
  simp [hj, hlt]

theorem bytes_congr {mem mem' : ℕ → BitVec 8} {a n : ℕ} (h : ∀ k < n, mem (a + k) = mem' (a + k)) :
    bytes mem a n = bytes mem' a n := by
  apply BitVec.eq_of_getLsbD_eq
  intro j hj
  rw [getLsbD_bytes, getLsbD_bytes, h (j / 8) (by omega)]

/-- Words stored from address `a` on lie there, and the bytes below are untouched. -/
theorem codeAt_store {ws : List Word} {m : (ℕ → BitVec 8) × Word} {a : ℕ}
    (hm : m.2 = BitVec.ofNat 32 a) (ha : a + 4 * ws.length ≤ 2 ^ 32) :
    CodeAt (ws.foldl store m).1 a ws ∧ (∀ x < a, (ws.foldl store m).1 x = m.1 x) ∧
      (ws.foldl store m).2 = BitVec.ofNat 32 (a + 4 * ws.length) := by
  induction ws generalizing m a with
  | nil => exact ⟨trivial, fun _ _ => rfl, hm⟩
  | cons w ws ih =>
      rw [List.length_cons] at ha
      have hpc : m.2.toNat = a := by
        rw [hm, BitVec.toNat_ofNat]
        exact Nat.mod_eq_of_lt (by omega)
      have hnext : (store m w).2 = BitVec.ofNat 32 (a + 4) := by
        rw [store, hm]
        exact (BitVec.ofNat_add ..).symm
      obtain ⟨hcode, hbelow, hend⟩ := ih hnext (by omega)
      rw [List.foldl_cons, List.length_cons]
      refine ⟨⟨?_, hcode⟩, fun x hx => ?_, ?_⟩
      · rw [bytes_congr fun k hk => hbelow (a + k) (by omega), store, hpc]
        exact bytes_putBytes _ _ _
      · rw [hbelow x (by omega), store, hpc]
        exact if_neg (by omega)
      · rw [hend, show a + 4 + 4 * ws.length = a + 4 * (ws.length + 1) by omega]

/-! ### Running it -/

/-- `n` calls of `execRiscv`. -/
def steps (tohostAddr : ℕ) (handleSyscall : Iss → BitVec 64 → Iss) : ℕ → Iss → Option Iss
  | 0, r => some r
  | n + 1, r => (r.execRiscv tohostAddr handleSyscall).bind (steps tohostAddr handleSyscall n)

/-- The host mailbox of a memory is empty. -/
def NoSyscall (tohostAddr : ℕ) (mem : ℕ → BitVec 8) : Prop :=
  (bytes mem tohostAddr 8 : BitVec 64) &&& 0xffffffff = 0

/-- One instruction that writes `v` to register `i`. -/
def wrote (r : Iss) (i : ArchReg) (v : Word) : Iss :=
  { r with
    pc := r.pc + 4, lastPc := r.pc, gpr := Function.update r.gpr i v, icnt := r.icnt + 1 }

variable {r : Iss} {i : ℕ} {tohostAddr : ℕ} {handleSyscall : Iss → BitVec 64 → Iss}

theorem execRiscv_of_fetch {w : Word} (hw : bytes r.mem r.pc.toNat 4 = w)
    (h : NoSyscall tohostAddr r.mem) : r.execRiscv tohostAddr handleSyscall = r.execInsn w := by
  rw [execRiscv, hw]
  exact congrArg _ (if_neg (not_not.mpr h))

theorem ofNat_reg_ne_zero (h0 : 0 < i) (hi : i < 32) : BitVec.ofNat 5 i ≠ 0 := fun h => by
  have hi : (BitVec.ofNat 5 i).toNat = 0 := congrArg BitVec.toNat h
  rw [BitVec.toNat_ofNat] at hi
  omega

theorem execInsn_lui (k : Word) (h0 : 0 < i) (hi : i < 32) :
    r.execInsn (luiWord k i) = some (wrote r (BitVec.ofNat 5 i) (k &&& 0xfffff000#32)) := by
  have hop : (luiWord k i).extractLsb' 0 7 = 0x37#7 := by
    rw [luiWord_eq k hi]
    exact (BitVec.extractLsb'_append_eq_of_add_le (by decide)).trans BitVec.extractLsb'_eq_self
  have hrd : rd (luiWord k i) = BitVec.ofNat 5 i := by
    rw [luiWord_eq k hi]
    exact extract_middle _ _ _
  have hupper : luiWord k i &&& 0xfffff000 = k &&& 0xfffff000#32 := by
    have hk : (luiWord k i).extractLsb' 12 20 = k.extractLsb' 12 20 := by
      rw [luiWord_eq k hi]
      exact ((BitVec.extractLsb'_append_eq_of_le (by decide)).trans
        (BitVec.extractLsb'_append_eq_of_le (by decide))).trans BitVec.extractLsb'_eq_self
    have hu : k &&& 0xfffff000#32 = immU k := upper_eq k
    rw [upper_eq, hu, immU, immU, hk]
  have harm : ∀ s : Iss, execSwitch (luiWord k i) s = some (execLui (luiWord k i) s) :=
    fun s => congrArg (switchArm (luiWord k i) s) hop
  rw [execInsn_of_switch (harm _), execLui, hrd, if_pos (ofNat_reg_ne_zero h0 hi), hupper]
  rfl

theorem execInsn_opImm (d : Word) {f3 : BitVec 3} (hsel : f3 = 0#3 ∨ f3 = 6#3) (h0 : 0 < i)
    (hi : i < 32) :
    r.execInsn (opImmWord d (f3.setWidth 32) i) = some (wrote r (BitVec.ofNat 5 i)
      (if f3 = 0 then r.gpr (BitVec.ofNat 5 i) + (d.setWidth 12).signExtend 32
        else r.gpr (BitVec.ofNat 5 i) ||| (d.setWidth 12).signExtend 32)) := by
  obtain ⟨hop, hrd, hf3, hrs1, himm⟩ :=
    fields_append (d.setWidth 12) (BitVec.ofNat 5 i) f3 (BitVec.ofNat 5 i) 0x13#7
  rw [opImmWord_eq d f3 hi]
  generalize d.setWidth 12 ++ BitVec.ofNat 5 i ++ f3 ++ BitVec.ofNat 5 i ++ 0x13#7 = w at *
  have harm : ∀ s : Iss, execSwitch w s = execOpImm w s := fun s => congrArg (switchArm w s) hop
  have hvalue : ∀ s : Iss, s.opImmValue w = some
      (if f3 = 0 then s.gpr (BitVec.ofNat 5 i) + (d.setWidth 12).signExtend 32
        else s.gpr (BitVec.ofNat 5 i) ||| (d.setWidth 12).signExtend 32) := by
    intro s
    obtain rfl | rfl := hsel <;> rw [opImmValue, hf3, hrs1, simm32_eq, himm] <;> rfl
  rw [execInsn, harm, execOpImm, hrd, if_pos (ofNat_reg_ne_zero h0 hi), hvalue]
  rfl

theorem steps_regCode {g : Word} (hg : Emittable g) (h0 : 0 < i) (hi : i < 32) {ws : List Word}
    (hws : regCode g i = some ws) (hcode : CodeAt r.mem r.pc.toNat ws)
    (hpc : r.pc.toNat + 4 < 2 ^ 32) (h : NoSyscall tohostAddr r.mem) :
    ws.length = 2 ∧ steps tohostAddr handleSyscall 2 r =
      some { r with
        pc := r.pc + 8, lastPc := r.pc + 4, gpr := Function.update r.gpr (BitVec.ofNat 5 i) g
        icnt := r.icnt + 2 } := by
  obtain ⟨k, d, f3, hsel, hval, hreg⟩ := regCode_of_emittable hg
  rw [hreg i] at hws
  obtain rfl := Option.some.inj hws
  obtain ⟨hw1, hw2, -⟩ := hcode
  refine ⟨rfl, ?_⟩
  have hpc4 : (r.pc + 4).toNat = r.pc.toNat + 4 := by
    rw [BitVec.toNat_add]
    exact Nat.mod_eq_of_lt hpc
  rw [← hpc4] at hw2
  rw [steps, execRiscv_of_fetch hw1 h, execInsn_lui k h0 hi, Option.bind_some, steps,
    execRiscv_of_fetch (r := wrote r _ _) hw2 h, execInsn_opImm d hsel h0 hi, Option.bind_some,
    steps]
  have hgpr : (wrote r (BitVec.ofNat 5 i) (k &&& 0xfffff000#32)).gpr (BitVec.ofNat 5 i) =
      k &&& 0xfffff000#32 := Function.update_self ..
  rw [codeValue] at hval
  rw [hgpr, hval, wrote, wrote, Function.update_idem, BitVec.add_assoc, BitVec.add_assoc]
  rfl

theorem steps_add (n m : ℕ) (r : Iss) : steps tohostAddr handleSyscall (n + m) r =
    (steps tohostAddr handleSyscall n r).bind (steps tohostAddr handleSyscall m) := by
  induction n generalizing r with
  | zero => rw [Nat.zero_add, steps, Option.bind_some]
  | succ n ih =>
      rw [Nat.succ_add, steps, steps, Option.bind_assoc]
      exact Option.bind_congr fun x _ => ih x

theorem steps_regsCode {gpr : ArchReg → Word} {is : List ℕ} (his : ∀ i ∈ is, 0 < i ∧ i < 32)
    (hg : ∀ i ∈ is, Emittable (gpr (BitVec.ofNat 5 i)))
    (hcode : CodeAt r.mem r.pc.toNat
      (is.flatMap fun i => (regCode (gpr (BitVec.ofNat 5 i)) i).getD []))
    (hpc : r.pc.toNat + 8 * is.length < 2 ^ 32) (h : NoSyscall tohostAddr r.mem) :
    ∃ r', steps tohostAddr handleSyscall (2 * is.length) r = some r' ∧ r'.mem = r.mem ∧
      r'.pc.toNat = r.pc.toNat + 8 * is.length ∧ r'.icnt = r.icnt + BitVec.ofNat 64 (2 * is.length) ∧
      ∀ x, r'.gpr x = if x ∈ is.map (BitVec.ofNat 5) then gpr x else r.gpr x := by
  induction is generalizing r with
  | nil => exact ⟨r, rfl, rfl, rfl, (BitVec.add_zero _).symm, fun _ => rfl⟩
  | cons i is ih =>
      obtain ⟨h0, hi⟩ := his i List.mem_cons_self
      have hgi := hg i List.mem_cons_self
      obtain ⟨k, d, f3, -, -, hreg⟩ := regCode_of_emittable hgi
      rw [List.length_cons] at hpc
      rw [List.flatMap_cons, hreg i, Option.getD_some, codeAt_append] at hcode
      have hstep : steps tohostAddr handleSyscall 2 r = some _ :=
        (steps_regCode hgi h0 hi (hreg i) hcode.1 (by omega) h).2
      have hpc8 : (r.pc + 8).toNat = r.pc.toNat + 8 := by
        have h8 : (8 : Word).toNat = 8 := rfl
        rw [BitVec.toNat_add, h8]
        exact Nat.mod_eq_of_lt (by omega)
      obtain ⟨r', hrun, hmem, hend, hcnt, hgpr⟩ := ih
        (r := { r with
          pc := r.pc + 8, lastPc := r.pc + 4
          gpr := Function.update r.gpr (BitVec.ofNat 5 i) (gpr (BitVec.ofNat 5 i))
          icnt := r.icnt + 2 })
        (fun j hj => his j (List.mem_cons_of_mem _ hj))
        (fun j hj => hg j (List.mem_cons_of_mem _ hj))
        (by rw [hpc8]; exact hcode.2) (by rw [hpc8]; omega) h
      have hlen : 2 * (is.length + 1) = 2 + 2 * is.length := by omega
      refine ⟨r', ?_, hmem, ?_, ?_, fun x => ?_⟩
      · rw [List.length_cons, hlen, steps_add, hstep]
        exact hrun
      · rw [hend, hpc8, List.length_cons]
        omega
      · rw [hcnt, List.length_cons, hlen, BitVec.ofNat_add, ← BitVec.add_assoc]
        rfl
      · rw [hgpr x, List.map_cons]
        by_cases hx : x ∈ is.map (BitVec.ofNat 5)
        · rw [if_pos hx, if_pos (List.mem_cons_of_mem _ hx)]
        · rw [if_neg hx]
          by_cases hxi : x = BitVec.ofNat 5 i
          · rw [hxi, if_pos List.mem_cons_self]
            exact Function.update_self ..
          · rw [if_neg (by simp [hxi, hx])]
            exact Function.update_of_ne hxi ..

/-- Emission stores the code of all registers, or fails. -/
theorem emitRegs_eq {gpr : ArchReg → Word} {is : List ℕ} {m : (ℕ → BitVec 8) × Word}
    (hg : ∀ i ∈ is, Emittable (gpr (BitVec.ofNat 5 i))) : emitRegs gpr is m =
      some ((is.flatMap fun i => (regCode (gpr (BitVec.ofNat 5 i)) i).getD []).foldl store m) := by
  induction is generalizing m with
  | nil => rfl
  | cons i is ih =>
      obtain ⟨k, d, f3, -, -, hreg⟩ := regCode_of_emittable (hg i List.mem_cons_self)
      rw [emitRegs, hreg i, Option.bind_some, ih fun j hj => hg j (List.mem_cons_of_mem _ hj),
        List.flatMap_cons, List.foldl_append, hreg i]
      rfl

theorem length_regsCode {gpr : ArchReg → Word} {is : List ℕ}
    (hg : ∀ i ∈ is, Emittable (gpr (BitVec.ofNat 5 i))) :
    (is.flatMap fun i => (regCode (gpr (BitVec.ofNat 5 i)) i).getD []).length = 2 * is.length := by
  induction is with
  | nil => rfl
  | cons i is ih =>
      obtain ⟨k, d, f3, -, -, hreg⟩ := regCode_of_emittable (hg i List.mem_cons_self)
      rw [List.flatMap_cons, hreg i, List.length_append,
        ih fun j hj => hg j (List.mem_cons_of_mem _ hj), List.length_cons]
      simp only [Option.getD_some, List.length_cons, List.length_nil]
      omega

theorem emitRegs_eq_none {gpr : ArchReg → Word} {is : List ℕ} {m : (ℕ → BitVec 8) × Word}
    (hg : ∃ i ∈ is, ¬ Emittable (gpr (BitVec.ofNat 5 i))) : emitRegs gpr is m = none := by
  induction is generalizing m with
  | nil => simp at hg
  | cons i is ih =>
      rw [emitRegs]
      obtain ⟨j, hj, hn⟩ := hg
      obtain rfl | hj := List.mem_cons.mp hj
      · rw [regCode_of_not_emittable hn, Option.bind_none]
      · rw [Option.bind_eq_none_iff]
        exact fun ws _ => ih ⟨j, hj, hn⟩

/-! ### The start-up code restores the registers -/

/-- The code for the registers of `s` is emitted at `pc`, and running it from there, with whatever
registers, executes 62 instructions, leaves these registers in `x1` to `x31` and stops before the
break. -/
def RestoresRegisters (s : Iss) (pc : Word) : Prop :=
  ∃ t, emitCodeForInitialRegisterValues s pc = some t ∧
    ∀ (r : Iss) (tohostAddr : ℕ) (handleSyscall : Iss → BitVec 64 → Iss), r.pc = pc →
      r.mem = t.mem → NoSyscall tohostAddr t.mem →
        ∃ r', steps tohostAddr handleSyscall 62 r = some r' ∧ r'.icnt = r.icnt + 62 ∧
          (∀ i ≠ 0, r'.gpr i = s.gpr i) ∧ bytes r'.mem r'.pc.toNat 4 = 0x73#32

theorem mem_regs (x : ArchReg) : x ∈ (List.range' 1 31).map (BitVec.ofNat 5) ↔ x ≠ 0 := by
  revert x
  decide

/-- **The register-restore code is correct** exactly when no register holds one of the 2048 largest
values: these have bit 11 set, and rounding them up overflows. -/
theorem restores_registers_iff (s : Iss) (pc : Word) (hroom : pc.toNat + 764 ≤ 2 ^ 32) :
    RestoresRegisters s pc ↔ ∀ i ≠ 0, Emittable (s.gpr i) := by
  have hregs : (∀ i ≠ 0, Emittable (s.gpr i)) ↔
      ∀ i ∈ List.range' 1 31, Emittable (s.gpr (BitVec.ofNat 5 i)) := by
    simp only [← mem_regs, List.mem_map, forall_exists_index, and_imp, forall_apply_eq_imp_iff₂]
  rw [hregs]
  constructor
  · rintro ⟨t, ht, -⟩
    by_contra hc
    push Not at hc
    rw [emitCodeForInitialRegisterValues, emitRegs_eq_none hc] at ht
    cases ht
  · intro hg
    have his : ∀ i ∈ List.range' 1 31, 0 < i ∧ i < 32 := by decide
    have hlen := length_regsCode hg
    have hfit : pc.toNat + 4 *
        (((List.range' 1 31).flatMap fun i => (regCode (s.gpr (BitVec.ofNat 5 i)) i).getD []) ++
          0x73 :: List.replicate 128 0x13).length ≤ 2 ^ 32 := by
      rw [List.length_append, hlen, List.length_cons, List.length_replicate, List.length_range']
      omega
    have hcode := codeAt_store (m := (s.mem, pc)) (by simp) hfit
    obtain ⟨hcode, hbreak⟩ := codeAt_append.mp hcode.1
    rw [hlen] at hbreak
    refine ⟨_, by rw [emitCodeForInitialRegisterValues, emitRegs_eq hg, Option.map_some], ?_⟩
    intro r tohostAddr handleSyscall hpc hmem hno
    rw [List.foldl_append, List.foldl_cons] at hcode hbreak
    simp only at hmem hno
    obtain ⟨r', hrun, hmem', hpc', hcnt, hgpr⟩ :
        ∃ r', steps tohostAddr handleSyscall (2 * (List.range' 1 31).length) r = some r' ∧ _ :=
      steps_regsCode his hg (by rw [hpc, hmem]; exact hcode)
        (by rw [hpc, List.length_range']; omega) (by rw [hmem]; exact hno)
    refine ⟨r', hrun, hcnt, fun i hi => ?_, ?_⟩
    · rw [hgpr i, if_pos ((mem_regs i).mpr hi)]
    · rw [hmem', hpc', hpc, hmem]
      exact hbreak.1

/-- Values with bit 11 set, positive, negative and close to the least, and the largest value the
code is emitted for. -/
def mixedRegisters (i : ArchReg) : Word :=
  match i.toNat % 4 with
  | 0 => 0x12345fff
  | 1 => 0xfffff800
  | 2 => 0x80000abc
  | _ => 0x7ffff7ff

theorem restores_registers_mixed :
    RestoresRegisters { initState with gpr := mixedRegisters } 0x1000 :=
  (restores_registers_iff { initState with gpr := mixedRegisters } 0x1000 (by decide)).mpr
    (show ∀ i ≠ 0, Emittable (mixedRegisters i) by decide)

/-- No code is emitted for the largest value: `s.gpr[i] + 4095` overflows. -/
theorem no_code_for_max :
    ¬ RestoresRegisters { initState with gpr := fun _ => 0x7fffffff } 0 := by
  rintro ⟨t, ht, -⟩
  rw [emitCodeForInitialRegisterValues, emitRegs_eq_none ⟨1, by decide, by decide⟩] at ht
  cases ht

end Rv32Core.Checkpoint
