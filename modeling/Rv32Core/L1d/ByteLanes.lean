import Rv32Core.Interpret
import Rv32Core.L1d.Model
import Rv32Core.Lib.Bits

/-! # The byte lanes of the data cache

A line holds 16 bytes of memory, the byte at offset `k` in bits `8 * k + 7` to `8 * k`.  The two
load paths shift the line to the address and extend; a store is merged into the line for the next
load, and written into the RAM under byte enables.  All of it is what the interpreter's loads and
stores do to the memory that the line holds. -/

namespace Rv32Core

open Iss

/-! ### Operations and their sizes -/

/-- `MEM_LB`, `MEM_LH`, `MEM_LW`, `MEM_LBU`, `MEM_LHU` by the selector of the load. -/
def loadMemOp (sel : BitVec 3) : MemOp :=
  match sel with
  | 0x0 => .lb
  | 0x1 => .lh
  | 0x2 => .lw
  | 0x4 => .lbu
  | 0x5 => .lhu
  | _ => .nop

/-- `MEM_SB`, `MEM_SH`, `MEM_SW` by the selector of the store. -/
def storeMemOp (sel : BitVec 3) : MemOp :=
  match sel with
  | 0x0 => .sb
  | 0x1 => .sh
  | 0x2 => .sw
  | _ => .nop

/-- The number of bytes an operation touches. -/
def MemOp.size (op : MemOp) : ℕ :=
  match op with
  | .lb | .lbu | .sb => 1
  | .lh | .lhu | .sh => 2
  | .lw | .sw => 4
  | _ => 0

/-- The offset of an address in its line. -/
def lineOffset (addr : Word) : ℕ := (addr.extractLsb' 0 4).toNat

/-- The memory holds `line` at the line of `addr`. -/
def HoldsLine (mem : ℕ → BitVec 8) (addr : Word) (line : Line) : Prop :=
  ∀ k < 16, mem ((lineOf addr).toNat + k) = line.extractLsb' (8 * k) 8

theorem toNat_lineOf (addr : Word) : (lineOf addr).toNat + lineOffset addr = addr.toNat := by
  have := addr.isLt
  rw [lineOf, lineOffset, BitVec.toNat_append, BitVec.extractLsb'_toNat, BitVec.extractLsb'_toNat,
    BitVec.toNat_ofNat, Nat.zero_mod, Nat.or_zero, Nat.shiftLeft_eq, Nat.shiftRight_eq_div_pow,
    Nat.shiftRight_zero]
  omega

theorem bitOffset_eq (addr : Word) : bitOffset addr = 8 * lineOffset addr := rfl

/-! ### Loads -/

theorem bytes_of_holdsLine {mem : ℕ → BitVec 8} {addr : Word} {line : Line} {n : ℕ}
    (h : HoldsLine mem addr line) (hin : lineOffset addr + n ≤ 16) :
    bytes mem addr.toNat n = (line >>> bitOffset addr).setWidth (8 * n) := by
  apply BitVec.eq_of_getLsbD_eq
  intro j hj
  have haddr : addr.toNat + j / 8 = (lineOf addr).toNat + (lineOffset addr + j / 8) := by
    rw [← toNat_lineOf addr]
    omega
  have hbit : 8 * (lineOffset addr + j / 8) + j % 8 = 8 * lineOffset addr + j := by omega
  rw [getLsbD_bytes, haddr, h _ (by omega), BitVec.getLsbD_extractLsb', hbit,
    BitVec.getLsbD_setWidth, BitVec.getLsbD_ushiftRight, bitOffset_eq]
  simp [Nat.mod_lt]

/-- The value a load path extracts from a line is the value the interpreter loads from the memory
that holds it. -/
theorem loadValue_lanes {t : Iss} {inst addr v : Word} {line : Line}
    (h : HoldsLine t.mem addr line) (hin : lineOffset addr + (loadMemOp (sel inst)).size ≤ 16)
    (hv : t.loadValue inst addr.toNat = some v) :
    (loadValue (loadMemOp (sel inst)) (line >>> bitOffset addr)).setWidth 32 = v := by
  have hsel : ∀ x : BitVec 3, x = 0 ∨ x = 1 ∨ x = 2 ∨ x = 3 ∨ x = 4 ∨ x = 5 ∨ x = 6 ∨ x = 7 := by
    decide
  obtain hs | hs | hs | hs | hs | hs | hs | hs := hsel (sel inst) <;>
    rw [Iss.loadValue, hs] at hv <;> rw [hs] at hin ⊢
  · obtain rfl := Option.some.inj hv
    rw [bytes_of_holdsLine (n := 1) h hin]
    exact Bits.setWidth_signExtend _ (by decide)
  · obtain rfl := Option.some.inj hv
    rw [bytes_of_holdsLine (n := 2) h hin]
    exact Bits.setWidth_signExtend _ (by decide)
  · obtain rfl := Option.some.inj hv
    rw [bytes_of_holdsLine (n := 4) h hin]
    exact Bits.setWidth_signExtend _ (by decide)
  · cases hv
  · obtain rfl := Option.some.inj hv
    rw [bytes_of_holdsLine (n := 1) h hin]
    exact BitVec.setWidth_setWidth_of_le _ (by decide)
  · obtain rfl := Option.some.inj hv
    rw [bytes_of_holdsLine (n := 2) h hin]
    exact BitVec.setWidth_setWidth_of_le _ (by decide)
  · cases hv
  · cases hv

/-! ### Stores -/

theorem getLsbD_storeMask (op : MemOp) (addr : Word) (j : ℕ) (hop : op = .sb ∨ op = .sh ∨ op = .sw) :
    (storeMask op addr).getLsbD j =
      (decide (j < 128) && decide (8 * lineOffset addr ≤ j) &&
        decide (j < 8 * (lineOffset addr + op.size))) := by
  have hmask : ∀ k < 32, (wStoreMask op).getLsbD k = decide (k < 8 * op.size) := by
    obtain rfl | rfl | rfl := hop <;> decide
  rw [storeMask, BitVec.getLsbD_shiftLeft, BitVec.getLsbD_setWidth, bitOffset_eq]
  by_cases hk : j - 8 * lineOffset addr < 32
  · rw [hmask _ hk]
    by_cases hj : 8 * lineOffset addr ≤ j
    · have hiff : j - 8 * lineOffset addr < 8 * op.size ↔ j < 8 * (lineOffset addr + op.size) := by
        omega
      by_cases h128 : j < 128
      · simp [hj, h128, hiff, show j - 8 * lineOffset addr < 128 by omega]
      · simp [h128]
    · simp [hj]
  · have hsize : op.size ≤ 4 := by obtain rfl | rfl | rfl := hop <;> decide
    have hout : ¬ j < 8 * (lineOffset addr + op.size) := by omega
    rw [BitVec.getLsbD_of_ge (wStoreMask op) _ (by omega)]
    simp [hout]

theorem getLsbD_ff (k : ℕ) : (0xff#128).getLsbD k = decide (k < 8) := by
  by_cases hk : k < 128
  · have hlow : ∀ i < 128, (0xff#128).getLsbD i = decide (i < 8) := by decide
    exact hlow k hk
  · rw [BitVec.getLsbD_of_ge _ _ (by omega)]
    simp [show ¬ k < 8 by omega]

theorem getLsbD_byteMask (en : ℕ → Bool) (j : ℕ) :
    (byteMask en).getLsbD j = (decide (j < 128) && en (j / 8)) := by
  have hfold : ∀ n, ((List.range n).foldl
      (fun m k => if en k then m ||| (0xff#128 <<< (8 * k)) else m) 0).getLsbD j =
        (decide (j < 128) && decide (j < 8 * n) && en (j / 8)) := by
    intro n
    induction n with
    | zero => simp
    | succ n ih =>
        rw [List.range_succ, List.foldl_append, List.foldl_cons, List.foldl_nil]
        by_cases hen : en n = true
        · rw [if_pos hen, BitVec.getLsbD_or, ih, BitVec.getLsbD_shiftLeft, getLsbD_ff]
          by_cases hd : j / 8 = n
          · by_cases h128 : j < 128
            · simp [hd, hen, h128, show j < 8 * (n + 1) by omega, show j - 8 * n < 8 by omega]
            · simp [h128]
          · have hiff : j < 8 * (n + 1) ↔ j < 8 * n := by omega
            by_cases hle : 8 * n ≤ j
            · simp [hiff, show ¬ j - 8 * n < 8 by omega]
            · simp [hiff, show j < 8 * n by omega]
        · rw [if_neg hen, ih]
          by_cases hd : j / 8 = n
          · simp [hd, hen]
          · have hiff : j < 8 * (n + 1) ↔ j < 8 * n := by omega
            simp [hiff]
  rw [byteMask, hfold]
  by_cases hj : j < 128 <;> simp [hj]

/-- A write under the byte enables of a store is the merge of the store into the line. -/
theorem writeBytes_store (op : MemOp) (data addr : Word) (line : Line)
    (hop : op = .sb ∨ op = .sh ∨ op = .sw) :
    writeBytes (fun j => (storeMask op addr).getLsbD (8 * j)) (storeShift data addr) line =
      mergeLine op data addr line := by
  have hmask : byteMask (fun j => (storeMask op addr).getLsbD (8 * j)) = storeMask op addr := by
    apply BitVec.eq_of_getLsbD_eq
    intro j hj
    rw [getLsbD_byteMask, getLsbD_storeMask op addr _ hop, getLsbD_storeMask op addr _ hop]
    have hle : 8 * lineOffset addr ≤ 8 * (j / 8) ↔ 8 * lineOffset addr ≤ j := by omega
    have hlt : 8 * (j / 8) < 8 * (lineOffset addr + op.size) ↔
        j < 8 * (lineOffset addr + op.size) := by omega
    simp [hj, hle, hlt, show 8 * (j / 8) < 128 by omega]
  rw [writeBytes, mergeLine, hmask]

theorem holdsLine_store {mem : ℕ → BitVec 8} {op : MemOp} {data addr : Word} {line : Line}
    (h : HoldsLine mem addr line) (hop : op = .sb ∨ op = .sh ∨ op = .sw)
    (hin : lineOffset addr + op.size ≤ 16) :
    HoldsLine (putBytes mem addr.toNat op.size data) addr (mergeLine op data addr line) := by
  intro k hk
  have haddr := toNat_lineOf addr
  apply BitVec.eq_of_getLsbD_eq
  intro j hj
  have h128 : 8 * k + j < 128 := by omega
  rw [BitVec.getLsbD_extractLsb', mergeLine, BitVec.getLsbD_or, BitVec.getLsbD_and,
    BitVec.getLsbD_and, BitVec.getLsbD_not, getLsbD_storeMask op addr _ hop, putBytes]
  by_cases hin' : lineOffset addr ≤ k ∧ k < lineOffset addr + op.size
  · have hput : addr.toNat ≤ (lineOf addr).toNat + k ∧
        (lineOf addr).toNat + k < addr.toNat + op.size := by omega
    have hoff : (lineOf addr).toNat + k - addr.toNat = k - lineOffset addr := by omega
    rw [if_pos hput, hoff, BitVec.getLsbD_extractLsb', storeShift, BitVec.getLsbD_shiftLeft,
      BitVec.getLsbD_setWidth, bitOffset_eq]
    have h1 : 8 * lineOffset addr ≤ 8 * k + j := by omega
    have h2 : 8 * k + j < 8 * (lineOffset addr + op.size) := by omega
    have h3 : 8 * (k - lineOffset addr) + j = 8 * k + j - 8 * lineOffset addr := by omega
    simp [hj, h128, h1, h2, h3, show ¬ 8 * k + j < 8 * lineOffset addr by omega,
      show 8 * k + j - 8 * lineOffset addr < 128 by omega]
  · have hput : ¬ (addr.toNat ≤ (lineOf addr).toNat + k ∧
        (lineOf addr).toNat + k < addr.toNat + op.size) := by omega
    rw [if_neg hput, h k hk, BitVec.getLsbD_extractLsb']
    have hout : ¬ (8 * lineOffset addr ≤ 8 * k + j ∧ 8 * k + j < 8 * (lineOffset addr + op.size)) := by
      omega
    rw [not_and_or] at hout
    obtain hout | hout := hout <;> simp [hj, h128, hout]

/-! ### Against the interpreter -/

theorem execInsn_load {t t' : Iss} {inst : Word} (hop : inst.extractLsb' 0 7 = 0x03)
    (hrd : rd inst ≠ 0) (ht : execInsn inst t = some t') :
    t.loadValue inst (disp12 inst + t.gpr (rs1 inst)).toNat = some (t'.gpr (rd inst)) := by
  rw [execInsn, Option.map_eq_some_iff] at ht
  obtain ⟨u, hu, rfl⟩ := ht
  rw [execSwitch, hop] at hu
  change execLoad inst _ = some u at hu
  rw [execLoad, if_pos hrd, Option.map_eq_some_iff] at hu
  obtain ⟨v, hv, rfl⟩ := hu
  have hgpr : (counted (((({ t with lastPc := t.pc } : Iss).setGpr (rd inst) v)).skip)).gpr
      (rd inst) = v := Function.update_self ..
  rw [hgpr]
  exact hv

theorem execInsn_store {t t' : Iss} {inst : Word} (hop : inst.extractLsb' 0 7 = 0x23)
    (ht : execInsn inst t = some t') :
    (storeMemOp (sel inst) = .sb ∨ storeMemOp (sel inst) = .sh ∨ storeMemOp (sel inst) = .sw) ∧
      t'.mem = putBytes t.mem (storeDisp inst + t.gpr (rs1 inst)).toNat
        (storeMemOp (sel inst)).size (t.gpr (rs2 inst)) := by
  have hsel : ∀ x : BitVec 3, x = 0 ∨ x = 1 ∨ x = 2 ∨ x = 3 ∨ x = 4 ∨ x = 5 ∨ x = 6 ∨ x = 7 := by
    decide
  rw [execInsn, Option.map_eq_some_iff] at ht
  obtain ⟨u, hu, rfl⟩ := ht
  rw [execSwitch, hop] at hu
  change execStore inst _ = some u at hu
  rw [execStore] at hu
  obtain hs | hs | hs | hs | hs | hs | hs | hs := hsel (sel inst) <;> rw [hs] at hu ⊢
  · obtain rfl := Option.some.inj hu
    exact ⟨.inl rfl, rfl⟩
  · obtain rfl := Option.some.inj hu
    exact ⟨.inr (.inl rfl), rfl⟩
  · obtain rfl := Option.some.inj hu
    exact ⟨.inr (.inr rfl), rfl⟩
  all_goals cases hu

/-- A store that hits writes the merged line into its set of the RAM, and only there. -/
theorem L1d.nDcData_of_tWrArray {s : L1d} {i : L1dIn} {line : Line} (hwr : s.tWrArray = true)
    (hrsp : i.memRspValid = false) (hram : s.dcData s.rCacheIdx = line)
    (hop : s.rReq.op = .sb ∨ s.rReq.op = .sh ∨ s.rReq.op = .sw) :
    s.nDcData i = Function.update s.dcData s.rCacheIdx
      (mergeLine s.rReq.op s.rReq.data s.rReq.addr line) := by
  have hen : s.wStoreByteEn i =
      fun j => (storeMask s.rReq.op s.rReq.addr).getLsbD (8 * j) := by
    funext j
    simp [wStoreByteEn, hrsp, hwr]
  have hmerge := writeBytes_store s.rReq.op s.rReq.data s.rReq.addr line hop
  funext x
  rw [nDcData, modifyIf_apply, hen]
  by_cases hx : x = s.rCacheIdx
  · simp [hx, hrsp, hwr, hram, hmerge]
  · simp [hx, hrsp]

/-- **The byte lanes of the data cache are those of the interpreter.**  When the memory holds the
line that the cache reads, both load paths return the value a load of the interpreter writes to its
register; and a store leaves in the RAM the line it forwards, which is the line that the memory
holds after the store of the interpreter, with every other set as before. -/
theorem byte_lanes (s : L1d) (i : L1dIn) (t t' : Iss) (inst addr : Word) (line : Line)
    (ht : execInsn inst t = some t') (hline : HoldsLine t.mem addr line) :
    (inst.extractLsb' 0 7 = 0x03 → rd inst ≠ 0 → addr = disp12 inst + t.gpr (rs1 inst) →
      lineOffset addr + (loadMemOp (sel inst)).size ≤ 16 →
        (s.rReq.op = loadMemOp (sel inst) → s.rReq.addr = addr → s.tData i = line →
          (s.tRspData i).setWidth 32 = t'.gpr (rd inst)) ∧
        (s.rReq2.op = loadMemOp (sel inst) → s.rReq2.addr = addr → s.tData2 = line →
          s.tRspData2.setWidth 32 = t'.gpr (rd inst))) ∧
    (inst.extractLsb' 0 7 = 0x23 → addr = storeDisp inst + t.gpr (rs1 inst) →
      lineOffset addr + (storeMemOp (sel inst)).size ≤ 16 →
        s.rReq.op = storeMemOp (sel inst) → s.rReq.addr = addr →
        s.rReq.data = t.gpr (rs2 inst) → s.tData i = line →
          HoldsLine t'.mem addr (s.tArrayData i) ∧
          (∀ x, (∀ k < 16, x ≠ (lineOf addr).toNat + k) → t'.mem x = t.mem x) ∧
          (s.tWrArray = true → i.memRspValid = false → s.dcData s.rCacheIdx = line →
            s.nDcData i = Function.update s.dcData s.rCacheIdx (s.tArrayData i))) := by
  constructor
  · rintro hop hrd rfl hin
    have hv := execInsn_load hop hrd ht
    have hval := loadValue_lanes hline hin hv
    constructor
    · intro hreq haddr hdata
      have hsc : loadMemOp (sel inst) ≠ .sc := by
        generalize sel inst = x
        revert x
        decide
      rw [L1d.tRspData, hreq, if_neg hsc, haddr, hdata]
      exact hval
    · intro hreq haddr hdata
      rw [L1d.tRspData2, hreq, haddr, hdata]
      exact hval
  · rintro hop rfl hin hreq haddr hstore hdata
    obtain ⟨hkind, hmem⟩ := execInsn_store hop ht
    have harray : s.tArrayData i = mergeLine (storeMemOp (sel inst)) (t.gpr (rs2 inst))
        (storeDisp inst + t.gpr (rs1 inst)) line := by
      have hst : isStoreOp (storeMemOp (sel inst)) = true := by
        obtain h | h | h := hkind <;> rw [h] <;> rfl
      rw [L1d.tArrayData, hreq, if_pos hst, haddr, hstore, hdata]
    refine ⟨?_, ?_, ?_⟩
    · rw [harray, hmem]
      exact holdsLine_store hline hkind hin
    · intro x hx
      have hoff := toNat_lineOf (storeDisp inst + t.gpr (rs1 inst))
      rw [hmem, putBytes, if_neg]
      rintro ⟨hlo, hhi⟩
      exact hx (x - (lineOf (storeDisp inst + t.gpr (rs1 inst))).toNat) (by omega) (by omega)
    · intro hwr hrsp hram
      rw [← hreq] at hkind
      rw [L1d.nDcData_of_tWrArray hwr hrsp hram hkind, harray, hreq, haddr, hstore]

/-- The line with byte `k` at offset `k`. -/
def countingLine : Line := 0x0f0e0d0c0b0a09080706050403020100

/-- A hit at address 5 on both ports, in that line. -/
def hitAtFive (op : MemOp) : L1d :=
  let r := { MemReq.zero with op := op, addr := 5, data := 0x55 }
  { L1d.ready with
    rGotReq := true
    rIsRetry := true
    rReq := r
    rReq2 := r
    rCacheIdx := 0
    rValidOut := true
    rTagOut := 0
    rCacheTag := 0
    rArrayOut := countingLine
    rArrayOut2 := countingLine
    dcData := fun _ => countingLine }

/-- The interpreter with byte `k` at address `k` and `0x55` in `x2`. -/
def countingIss : Iss :=
  { initState with
    mem := fun x => BitVec.ofNat 8 x
    gpr := fun r => if r = 2 then 0x55 else 0 }

/-- `lb x1, 5(x0)` on both ports and `sb x2, 5(x0)`. -/
theorem byte_lanes_five :
    ((hitAtFive .lb).tRspData L1dIn.idle).setWidth 32 = 5 ∧
    (hitAtFive .lb).tRspData2.setWidth 32 = 5 ∧
    (hitAtFive .sb).nDcData L1dIn.idle =
      Function.update (fun _ => countingLine) 0 ((hitAtFive .sb).tArrayData L1dIn.idle) := by
  have hline : HoldsLine countingIss.mem 5 countingLine := by
    unfold HoldsLine
    decide
  have hload : execInsn 0x00500083 countingIss =
      some (counted (setGpr { countingIss with lastPc := 0 } 1 5).skip) := rfl
  have hstore : execInsn 0x002002a3 countingIss =
      some (counted (skip { countingIss with
        lastPc := 0
        mem := putBytes countingIss.mem 5 1 0x55 })) := rfl
  obtain ⟨h1, h2⟩ := (byte_lanes (hitAtFive .lb) L1dIn.idle countingIss _ 0x00500083 5 countingLine
    hload hline).1 (by decide) (by decide) (by decide) (by decide)
  obtain ⟨-, -, h3⟩ := (byte_lanes (hitAtFive .sb) L1dIn.idle countingIss _ 0x002002a3 5
    countingLine hstore hline).2 (by decide) (by decide) (by decide) rfl rfl (by decide) rfl
  exact ⟨h1 rfl rfl rfl, h2 rfl rfl rfl, h3 rfl rfl rfl⟩

end Rv32Core
