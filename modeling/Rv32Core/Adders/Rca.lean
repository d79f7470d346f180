import Rv32Core.Adders.Verilog
import Rv32Core.Lib.PrefixScan

/-! # The ripple-carry generator

`gen_rca.write_rtl`: one carry wire for each bit but the last, each driven from the one before.
The module is well formed for every number of bits from one on, and its output is the sum. -/

namespace Rv32Core.Adders

open Netlist PrefixScan

/-- `wC<i>`. -/
def wC (i : ℕ) : String := "wC" ++ toString i

/-- The body of the loop. -/
def rcaBit (bits i : ℕ) : List Item :=
  Item.assign i (.xor (.xor (a i) (b i)) (.wire (wC (i - 1)))) ::
    if i ≠ bits - 1 then
      [Item.wire (wC i) (.or (.and (a i) (b i)) (.and (.wire (wC (i - 1))) (.xor (a i) (b i))))]
    else []

/-- `gen_rca.write_rtl`. -/
def rca (bits : ℕ) : Module where
  name := "rca" ++ toString bits
  bits := bits
  items := [Item.assign 0 (.xor (a 0) (b 0)), Item.wire (wC 0) (.and (a 0) (b 0))] ++
    (List.range' 1 (bits - 1)).flatMap (rcaBit bits)

example : (rca 2).file = "rca2.v" ∧ (rca 2).text =
    "module rca2(A, B, Y);\ninput [1:0] A;\ninput [1:0] B;\noutput [1:0] Y;\n" ++
      "assign Y[0] = A[0] ^ B[0];\nwire wC0 = A[0] & B[0];\n" ++
      "assign Y[1] = A[1] ^ B[1] ^ wC0;\nendmodule\n" := by decide +kernel

/-! ### The names -/

theorem toDigits_inj {i j : ℕ} (h : Nat.toDigits 10 i = Nat.toDigits 10 j) : i = j := by
  have h' := congrArg (Nat.ofDigitChars 10 · 0) h
  simpa only [Nat.ofDigitChars_ten_toDigits] using h'

theorem wC_inj {i j : ℕ} (h : wC i = wC j) : i = j := by
  have h' := congrArg String.toList h
  simp only [wC, String.toList_append, Nat.toString_eq_repr, Nat.toList_repr] at h'
  exact toDigits_inj (List.append_cancel_left h')

theorem wC_ne_port (i : ℕ) : wC i ∉ ["A", "B", "Y"] := by
  have hl : 2 ≤ (wC i).length := by
    simp only [wC, String.length_append]
    exact Nat.le_add_right 2 _
  intro h
  simp only [List.mem_cons, List.not_mem_nil, or_false] at h
  rcases h with h | h | h <;> rw [h] at hl <;> revert hl <;> decide

/-! ### Well-formedness -/

variable {bits : ℕ}

/-- The items before bit `n + 1`. -/
def rcaItems (bits n : ℕ) : List Item :=
  [Item.assign 0 (.xor (a 0) (b 0)), Item.wire (wC 0) (.and (a 0) (b 0))] ++
    (List.range' 1 n).flatMap (rcaBit bits)

theorem rcaItems_succ (n : ℕ) : rcaItems bits (n + 1) = rcaItems bits n ++ rcaBit bits (n + 1) := by
  have hr : List.range' 1 (n + 1) = List.range' 1 n ++ [n + 1] := by
    rw [List.range'_1_concat, Nat.add_comm 1 n]
  rw [rcaItems, hr, List.flatMap_append, ← List.append_assoc, List.flatMap_singleton]
  rfl

theorem declared_rcaItems {n : ℕ} (h : n ≤ bits - 1) :
    declared (rcaItems bits n) = (List.range (min (n + 1) (max 1 (bits - 1)))).map wC := by
  induction n with
  | zero =>
      have hm : min (0 + 1) (max 1 (bits - 1)) = 1 := by omega
      rw [hm]
      rfl
  | succ n ih =>
      rw [rcaItems_succ, declared_append, ih (by omega), rcaBit]
      by_cases hl : n + 1 = bits - 1
      · have hm : min (n + 1 + 1) (max 1 (bits - 1)) = min (n + 1) (max 1 (bits - 1)) := by omega
        rw [if_neg (not_not_intro hl), hm]
        exact List.append_nil _
      · have hm : min (n + 1) (max 1 (bits - 1)) = n + 1 := by omega
        have hm' : min (n + 1 + 1) (max 1 (bits - 1)) = n + 1 + 1 := by omega
        rw [if_pos hl, hm, hm', List.range_succ (n := n + 1), List.map_append]
        rfl

theorem driven_rcaItems (n : ℕ) : driven (rcaItems bits n) = List.range (n + 1) := by
  induction n with
  | zero => rfl
  | succ n ih =>
      rw [rcaItems_succ, driven_append, ih, rcaBit, List.range_succ (n := n + 1)]
      by_cases hl : n + 1 ≠ bits - 1
      · rw [if_pos hl]
        rfl
      · rw [if_neg hl]
        rfl

/-- The lines of bit `n + 1` read the carry out of bit `n`. -/
theorem usesDeclared_rcaBit (n : ℕ) : UsesDeclared [wC n] (rcaBit bits (n + 1)) := by
  apply usesDeclared_of_forall
  intro it hit m hm
  rcases List.mem_cons.mp hit with rfl | hit
  · exact hm
  · split_ifs at hit with hl
    · rw [List.mem_singleton.mp hit] at hm
      exact hm
    · exact absurd hit List.not_mem_nil

theorem usesDeclared_rcaItems {n : ℕ} (h : n ≤ bits - 1) : UsesDeclared [] (rcaItems bits n) := by
  induction n with
  | zero =>
      apply usesDeclared_of_forall
      intro it hit m hm
      rcases List.mem_cons.mp hit with rfl | hit
      · exact hm
      · rw [List.mem_singleton.mp hit] at hm
        exact hm
  | succ n ih =>
      rw [rcaItems_succ, usesDeclared_append]
      refine ⟨ih (by omega), (usesDeclared_rcaBit n).mono fun m hm => ?_⟩
      rw [List.mem_singleton.mp hm, List.nil_append, declared_rcaItems (by omega)]
      exact List.mem_map_of_mem (List.mem_range.mpr (by omega))

theorem rca_items (bits : ℕ) : (rca bits).items = rcaItems bits (bits - 1) := rfl

theorem inputs_rcaBit {i : ℕ} (hi : i < bits) :
    ∀ it ∈ rcaBit bits i, ∀ pi ∈ it.expr.inputs, pi.2 < bits := by
  intro it hit pi hpi
  have h : pi = (.A, i) ∨ pi = (.B, i) := by
    rcases List.mem_cons.mp hit with rfl | hit
    · simpa [Item.expr, Netlist.Expr.inputs, a, b] using hpi
    · split_ifs at hit with hl
      · rw [List.mem_singleton.mp hit] at hpi
        simp only [Item.expr, Netlist.Expr.inputs, a, b, List.mem_append, List.mem_singleton,
          List.not_mem_nil, false_or] at hpi
        tauto
      · exact absurd hit List.not_mem_nil
  rcases h with rfl | rfl <;> exact hi

/-- Every wire of the ripple-carry adder is declared once and before its use. -/
theorem rca_wellFormed (h : 0 < bits) : (rca bits).WellFormed where
  once := by
    rw [rca_items, declared_rcaItems (Nat.le_refl _)]
    refine List.nodup_append.mpr ⟨by decide, ?_, fun p hp q hq he => ?_⟩
    · exact (List.nodup_map_iff_inj_on List.nodup_range).mpr fun i _ j _ hij => wC_inj hij
    · obtain ⟨i, -, rfl⟩ := List.mem_map.mp hq
      exact wC_ne_port i (he ▸ hp)
  before := usesDeclared_rcaItems (Nat.le_refl _)
  reads := by
    intro it hit pi hpi
    rcases List.mem_append.mp hit with hit | hit
    · have hz : pi = (.A, 0) ∨ pi = (.B, 0) := by
        rcases List.mem_cons.mp hit with rfl | hit
        · simpa [Item.expr, Netlist.Expr.inputs, a, b] using hpi
        · rw [List.mem_singleton.mp hit] at hpi
          simpa [Item.expr, Netlist.Expr.inputs, a, b] using hpi
      rcases hz with rfl | rfl <;> exact h
    · obtain ⟨i, hi, hit⟩ := List.mem_flatMap.mp hit
      rw [List.mem_range'_1] at hi
      exact inputs_rcaBit (by omega) it hit pi hpi
  drives := by
    rw [rca_items, driven_rcaItems]
    exact congrArg List.range (show bits - 1 + 1 = bits by omega)

/-! ### The sum -/

variable {A B Y : BitVec bits} {ρ : String → Bool}

theorem mem_rca {i : ℕ} (h0 : 0 < i) (h : i < bits) {it : Item} (hit : it ∈ rcaBit bits i) :
    it ∈ (rca bits).items :=
  List.mem_append_right _ (List.mem_flatMap.mpr ⟨i, List.mem_range'_1.mpr (by omega), hit⟩)

theorem rca_carry (hs : (rca bits).Solves A B Y ρ) {i : ℕ} (h : i = 0 ∨ i + 1 < bits) :
    ρ (wC i) = BitVec.carry (i + 1) A B false := by
  induction i with
  | zero =>
      have h0 : ρ (wC 0) = (A.getLsbD 0 && B.getLsbD 0) := hs _ (.tail _ (.head _))
      rw [h0, carry_step, BitVec.carry_zero, Bool.and_false, Bool.or_false]
      rfl
  | succ i ih =>
      have hm : Item.wire (wC (i + 1)) (.or (.and (a (i + 1)) (b (i + 1)))
          (.and (.wire (wC i)) (.xor (a (i + 1)) (b (i + 1))))) ∈ rcaBit bits (i + 1) := by
        rw [rcaBit, if_pos (by omega)]
        exact .tail _ (.head _)
      have hw : ρ (wC (i + 1)) = (A.getLsbD (i + 1) && B.getLsbD (i + 1) ||
          ρ (wC i) && (A.getLsbD (i + 1) ^^ B.getLsbD (i + 1))) :=
        hs _ (mem_rca (by omega) (by omega) hm)
      rw [hw, ih (by omega), carry_step A B (i + 1), Bool.and_comm (BitVec.carry (i + 1) A B false)]
      rfl

/-- **The ripple-carry adder adds.** -/
theorem rca_sum (hs : (rca bits).Solves A B Y ρ) : Y = A + B := by
  apply BitVec.eq_of_getLsbD_eq
  intro i hi
  rw [BitVec.getLsbD_add hi]
  rcases Nat.eq_zero_or_pos i with rfl | h0
  · have hy : Y.getLsbD 0 = (A.getLsbD 0 ^^ B.getLsbD 0) := hs _ (.head _)
    rw [hy, BitVec.carry_zero, Bool.xor_false]
  · obtain ⟨k, rfl⟩ : ∃ k, i = k + 1 := ⟨i - 1, by omega⟩
    have hy : Y.getLsbD (k + 1) = ((A.getLsbD (k + 1) ^^ B.getLsbD (k + 1)) ^^ ρ (wC k)) :=
      hs _ (mem_rca h0 hi (.head _))
    rw [hy, rca_carry hs (by omega), Bool.xor_assoc]

theorem rca_outputs (h : 0 < bits) : (rca bits).Outputs A B Y ↔ Y = A + B := by
  obtain ⟨ρ, hs⟩ := (rca_wellFormed h).solves_run A B
  have hr : (rca bits).run A B = A + B := rca_sum hs
  exact (rca_wellFormed h).outputs_iff.trans (Iff.of_eq (congrArg (Y = ·) hr))

end Rv32Core.Adders
