import Mathlib.Data.List.GetD
import Rv32Core.Lib.Netlist

/-! # The modules of the adder generators

`gen_ppa.py` and `gen_rca.py` write a Verilog module with the ports `A`, `B` and `Y` whose body is
a list of wires and assignments.  A `Module` is what such a file says; `text` is the file itself.

`Outputs` is the meaning of the file: the equations of the body hold together.  A module that
declares every wire once and before its use and drives each bit of `Y` once has exactly one
output for every input, the one `run` computes. -/

namespace Rv32Core.Adders

/-- The input ports. -/
inductive Port where
  | A
  | B
deriving DecidableEq, Repr

def Port.name : Port → String
  | A => "A"
  | B => "B"

abbrev Expr := Netlist.Expr (Port × ℕ) String

abbrev Item := Netlist.Item (Port × ℕ) String ℕ

/-- `A[i]`. -/
def a (i : ℕ) : Expr := .input (.A, i)

/-- `B[i]`. -/
def b (i : ℕ) : Expr := .input (.B, i)

/-- A module of a generator. -/
structure Module where
  name : String
  bits : ℕ
  items : List Item

/-! ### The text -/

/-- Operands are wrapped unless they are a bit or a wire. -/
def wrap : Expr → String → String
  | .input _, s => s
  | .wire _, s => s
  | _, s => "(" ++ s ++ ")"

/-- The left operand of `^` may be another `^`. -/
def wrapXor : Expr → String → String
  | .xor _ _, s => s
  | e, s => wrap e s

def exprText : Expr → String
  | .input (p, i) => p.name ++ "[" ++ toString i ++ "]"
  | .wire n => n
  | .and e e' => wrap e (exprText e) ++ " & " ++ wrap e' (exprText e')
  | .or e e' => wrap e (exprText e) ++ " | " ++ wrap e' (exprText e')
  | .xor e e' => wrapXor e (exprText e) ++ " ^ " ++ wrap e' (exprText e')

def itemText : Item → String
  | .wire n e => "wire " ++ n ++ " = " ++ exprText e ++ ";\n"
  | .assign i e => "assign Y[" ++ toString i ++ "] = " ++ exprText e ++ ";\n"

namespace Module

/-- The name of the file. -/
def file (m : Module) : String := m.name ++ ".v"

/-- The file. -/
def text (m : Module) : String :=
  "module " ++ m.name ++ "(A, B, Y);\n" ++
    "input [" ++ toString (m.bits - 1) ++ ":0] A;\n" ++
    "input [" ++ toString (m.bits - 1) ++ ":0] B;\n" ++
    "output [" ++ toString (m.bits - 1) ++ ":0] Y;\n" ++
    String.join (m.items.map itemText) ++ "endmodule\n"

/-! ### The meaning -/

/-- The bits of the input ports. -/
def inputs {n : ℕ} (A B : BitVec n) : Port × ℕ → Bool
  | (.A, i) => A.getLsbD i
  | (.B, i) => B.getLsbD i

/-- The equations hold with the wires `ρ`. -/
def Solves (m : Module) (A B Y : BitVec m.bits) (ρ : String → Bool) : Prop :=
  Netlist.Solves m.items (inputs A B) ρ Y.getLsbD

/-- Some values of the wires give the output `Y`. -/
def Outputs (m : Module) (A B Y : BitVec m.bits) : Prop := ∃ ρ, m.Solves A B Y ρ

/-- The items executed in order. -/
def run (m : Module) (A B : BitVec m.bits) : BitVec m.bits :=
  (BitVec.ofBoolListLE ((List.range m.bits).map (Netlist.run m.items (inputs A B)).2)).setWidth
    m.bits

/-- Every wire is declared once, under a name that no port has, and before it is used.  Only bits
of the ports are read, and each bit of `Y` is driven once. -/
structure WellFormed (m : Module) : Prop where
  once : (["A", "B", "Y"] ++ Netlist.declared m.items).Nodup
  before : Netlist.UsesDeclared [] m.items
  reads : ∀ it ∈ m.items, ∀ pi ∈ it.expr.inputs, pi.2 < m.bits
  drives : Netlist.driven m.items = List.range m.bits

variable {m : Module} {A B Y : BitVec m.bits}

theorem getLsbD_run (A B : BitVec m.bits) {i : ℕ} (h : i < m.bits) :
    (m.run A B).getLsbD i = (Netlist.run m.items (inputs A B)).2 i := by
  rw [run, BitVec.getLsbD_setWidth, BitVec.getLsbD_ofBoolListLE, decide_eq_true h, Bool.true_and]
  simp [List.getD_eq_getElem?_getD, h]

theorem WellFormed.solves_run (h : m.WellFormed) (A B : BitVec m.bits) :
    m.Outputs A B (m.run A B) := by
  have hd : (Netlist.driven m.items).Nodup := by
    rw [h.drives]
    exact List.nodup_range
  have hs := Netlist.solves_run (inputs A B) h.before (List.Nodup.of_append_right h.once) hd
  refine ⟨(Netlist.run m.items (inputs A B)).1, fun it hit => ?_⟩
  have hi := hs it hit
  cases it with
  | wire n e => exact hi
  | assign i e =>
      have hm : i ∈ Netlist.driven m.items :=
        List.mem_flatMap.mpr ⟨_, hit, List.mem_singleton_self i⟩
      rw [h.drives, List.mem_range] at hm
      exact (getLsbD_run A B hm).trans hi

/-- **A well-formed module is a function of its inputs.** -/
theorem WellFormed.outputs_iff (h : m.WellFormed) : m.Outputs A B Y ↔ Y = m.run A B := by
  refine ⟨fun ⟨ρ, hρ⟩ => ?_, fun hy => hy ▸ h.solves_run A B⟩
  obtain ⟨ρ', hρ'⟩ := h.solves_run A B
  have hu := (hρ.unique h.before hρ' fun n hn => absurd hn List.not_mem_nil).2
  apply BitVec.eq_of_getLsbD_eq
  intro i hi
  exact hu i (by rw [h.drives]; exact List.mem_range.mpr hi)

end Module

end Rv32Core.Adders
