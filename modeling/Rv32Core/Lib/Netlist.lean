import Mathlib.Data.List.Nodup
import Mathlib.Tactic.Common

/-! # Netlists of continuous assignments

A netlist is a list of items, each of which declares a wire with the expression that drives it or
drives an output bit.  Its meaning does not depend on the order: a valuation of the wires and the
outputs solves it when every item holds.  When every wire is declared once and before it is used,
executing the items in order gives a solution, and any two solutions agree on the declared wires
and on the driven outputs. -/

namespace Netlist

variable {ι ν ο : Type*}

/-- Expressions over input bits and wires. -/
inductive Expr (ι ν : Type*) where
  | input (i : ι)
  | wire (n : ν)
  | and (a b : Expr ι ν)
  | or (a b : Expr ι ν)
  | xor (a b : Expr ι ν)
deriving DecidableEq, Repr

/-- `wire n = e;` or `assign o = e;`. -/
inductive Item (ι ν ο : Type*) where
  | wire (n : ν) (e : Expr ι ν)
  | assign (o : ο) (e : Expr ι ν)
deriving DecidableEq, Repr

namespace Expr

/-- The wires an expression reads. -/
def wires : Expr ι ν → List ν
  | input _ => []
  | wire n => [n]
  | and a b => a.wires ++ b.wires
  | or a b => a.wires ++ b.wires
  | xor a b => a.wires ++ b.wires

/-- The input bits an expression reads. -/
def inputs : Expr ι ν → List ι
  | input i => [i]
  | wire _ => []
  | and a b => a.inputs ++ b.inputs
  | or a b => a.inputs ++ b.inputs
  | xor a b => a.inputs ++ b.inputs

/-- The value under inputs `x` and wires `ρ`. -/
def val (x : ι → Bool) (ρ : ν → Bool) : Expr ι ν → Bool
  | input i => x i
  | wire n => ρ n
  | and a b => a.val x ρ && b.val x ρ
  | or a b => a.val x ρ || b.val x ρ
  | xor a b => a.val x ρ ^^ b.val x ρ

theorem val_congr (x : ι → Bool) {ρ ρ' : ν → Bool} (e : Expr ι ν)
    (h : ∀ n ∈ e.wires, ρ n = ρ' n) : e.val x ρ = e.val x ρ' := by
  induction e with
  | input i => rfl
  | wire n => exact h n (List.mem_singleton_self n)
  | and a b iha ihb | or a b iha ihb | xor a b iha ihb =>
      rw [val, val, iha fun n hn => h n (List.mem_append_left _ hn),
        ihb fun n hn => h n (List.mem_append_right _ hn)]

end Expr

namespace Item

/-- The wire an item declares. -/
def declares : Item ι ν ο → List ν
  | wire n _ => [n]
  | assign _ _ => []

/-- The output bit an item drives. -/
def drives : Item ι ν ο → List ο
  | wire _ _ => []
  | assign o _ => [o]

def expr : Item ι ν ο → Expr ι ν
  | wire _ e => e
  | assign _ e => e

/-- The equation of an item. -/
def Holds (x : ι → Bool) (ρ : ν → Bool) (y : ο → Bool) : Item ι ν ο → Prop
  | wire n e => ρ n = e.val x ρ
  | assign o e => y o = e.val x ρ

end Item

/-- The declared wires, in order. -/
def declared (l : List (Item ι ν ο)) : List ν := l.flatMap Item.declares

/-- The driven outputs, in order. -/
def driven (l : List (Item ι ν ο)) : List ο := l.flatMap Item.drives

@[simp] theorem declared_append (l l' : List (Item ι ν ο)) :
    declared (l ++ l') = declared l ++ declared l' := List.flatMap_append

@[simp] theorem driven_append (l l' : List (Item ι ν ο)) :
    driven (l ++ l') = driven l ++ driven l' := List.flatMap_append

/-! ### Declaration before use -/

/-- Every item reads wires of `D` or wires declared before it. -/
def UsesDeclared : List ν → List (Item ι ν ο) → Prop
  | _, [] => True
  | D, it :: l => (∀ n ∈ it.expr.wires, n ∈ D) ∧ UsesDeclared (D ++ it.declares) l

theorem usesDeclared_append {D : List ν} {l l' : List (Item ι ν ο)} :
    UsesDeclared D (l ++ l') ↔ UsesDeclared D l ∧ UsesDeclared (D ++ declared l) l' := by
  induction l generalizing D with
  | nil => simp [UsesDeclared, declared]
  | cons it l ih =>
      have hd : D ++ it.declares ++ declared l = D ++ declared (it :: l) := by
        rw [List.append_assoc]
        rfl
      rw [List.cons_append, UsesDeclared, UsesDeclared, ih, hd, and_assoc]

theorem UsesDeclared.mono {D D' : List ν} {l : List (Item ι ν ο)} (h : UsesDeclared D l)
    (hs : ∀ n ∈ D, n ∈ D') : UsesDeclared D' l := by
  induction l generalizing D D' with
  | nil => trivial
  | cons it l ih =>
      refine ⟨fun n hn => hs n (h.1 n hn), ih h.2 fun n hn => ?_⟩
      rcases List.mem_append.mp hn with hn | hn
      · exact List.mem_append_left _ (hs n hn)
      · exact List.mem_append_right _ hn

theorem usesDeclared_of_forall {D : List ν} {l : List (Item ι ν ο)}
    (h : ∀ it ∈ l, ∀ n ∈ it.expr.wires, n ∈ D) : UsesDeclared D l := by
  induction l generalizing D with
  | nil => trivial
  | cons it l ih =>
      refine ⟨h it List.mem_cons_self, ih fun it' hit n hn => ?_⟩
      exact List.mem_append_left _ (h it' (List.mem_cons_of_mem _ hit) n hn)

/-! ### Solutions -/

/-- All equations hold. -/
def Solves (l : List (Item ι ν ο)) (x : ι → Bool) (ρ : ν → Bool) (y : ο → Bool) : Prop :=
  ∀ it ∈ l, it.Holds x ρ y

/-- **Uniqueness**: two solutions that agree on `D` agree on what is declared and driven. -/
theorem Solves.unique {D : List ν} {l : List (Item ι ν ο)} {x : ι → Bool} {ρ ρ' : ν → Bool}
    {y y' : ο → Bool} (hu : UsesDeclared D l) (h : Solves l x ρ y) (h' : Solves l x ρ' y')
    (hD : ∀ n ∈ D, ρ n = ρ' n) :
    (∀ n ∈ declared l, ρ n = ρ' n) ∧ ∀ o ∈ driven l, y o = y' o := by
  induction l generalizing D with
  | nil => exact ⟨fun n hn => absurd hn List.not_mem_nil, fun o ho => absurd ho List.not_mem_nil⟩
  | cons it l ih =>
      have he : it.expr.val x ρ = it.expr.val x ρ' :=
        it.expr.val_congr x fun n hn => hD n (hu.1 n hn)
      have hit := h it List.mem_cons_self
      have hit' := h' it List.mem_cons_self
      have hn : ∀ n ∈ it.declares, ρ n = ρ' n := by
        intro n hn
        cases it with
        | wire m e =>
            rw [List.mem_singleton.mp hn]
            exact hit.trans (he.trans hit'.symm)
        | assign o e => exact absurd hn List.not_mem_nil
      have ho : ∀ o ∈ it.drives, y o = y' o := by
        intro o ho
        cases it with
        | wire m e => exact absurd ho List.not_mem_nil
        | assign p e =>
            rw [List.mem_singleton.mp ho]
            exact hit.trans (he.trans hit'.symm)
      have hrest := ih hu.2 (fun i hi => h i (List.mem_cons_of_mem _ hi))
        (fun i hi => h' i (List.mem_cons_of_mem _ hi)) fun n hn' => by
          rcases List.mem_append.mp hn' with hn' | hn'
          · exact hD n hn'
          · exact hn n hn'
      refine ⟨fun n hn' => ?_, fun o ho' => ?_⟩
      · rcases List.mem_append.mp hn' with hn' | hn'
        · exact hn n hn'
        · exact hrest.1 n hn'
      · rcases List.mem_append.mp ho' with ho' | ho'
        · exact ho o ho'
        · exact hrest.2 o ho'

/-! ### Execution -/

variable [DecidableEq ν] [DecidableEq ο]

/-- One item executed on the values of wires and outputs. -/
def Item.exec (x : ι → Bool) (s : (ν → Bool) × (ο → Bool)) : Item ι ν ο → (ν → Bool) × (ο → Bool)
  | wire n e => (Function.update s.1 n (e.val x s.1), s.2)
  | assign o e => (s.1, Function.update s.2 o (e.val x s.1))

/-- The items in order, from all wires and outputs low. -/
def run (l : List (Item ι ν ο)) (x : ι → Bool) : (ν → Bool) × (ο → Bool) :=
  l.foldl (Item.exec x) (fun _ => false, fun _ => false)

/-- Execution writes nothing but what is declared and driven. -/
theorem foldl_exec_frame (x : ι → Bool) (l : List (Item ι ν ο)) (s : (ν → Bool) × (ο → Bool)) :
    (∀ n ∉ declared l, (l.foldl (Item.exec x) s).1 n = s.1 n) ∧
      ∀ o ∉ driven l, (l.foldl (Item.exec x) s).2 o = s.2 o := by
  induction l generalizing s with
  | nil => exact ⟨fun _ _ => rfl, fun _ _ => rfl⟩
  | cons it l ih =>
      obtain ⟨hw, ho⟩ := ih (it.exec x s)
      refine ⟨fun n hn => ?_, fun o hn => ?_⟩
      · have hn' := fun h => hn (List.mem_append_right it.declares h)
        rw [List.foldl_cons, hw n hn']
        cases it with
        | wire m e =>
            have hm : n ≠ m := fun h => hn (List.mem_append_left _ (by rw [h]; exact .head _))
            exact Function.update_of_ne hm _ _
        | assign o e => rfl
      · have hn' := fun h => hn (List.mem_append_right it.drives h)
        rw [List.foldl_cons, ho o hn']
        cases it with
        | wire m e => rfl
        | assign p e =>
            have hm : o ≠ p := fun h => hn (List.mem_append_left _ (by rw [h]; exact .head _))
            exact Function.update_of_ne hm _ _

theorem solves_foldl_exec {D : List ν} {l : List (Item ι ν ο)} (x : ι → Bool)
    (s : (ν → Bool) × (ο → Bool)) (hu : UsesDeclared D l) (hn : (D ++ declared l).Nodup)
    (ho : (driven l).Nodup) :
    Solves l x (l.foldl (Item.exec x) s).1 (l.foldl (Item.exec x) s).2 := by
  induction l generalizing D s with
  | nil => exact fun it hit => absurd hit List.not_mem_nil
  | cons it l ih =>
      have hn' : (D ++ it.declares ++ declared l).Nodup := by
        rw [List.append_assoc]
        exact hn
      have hfr := foldl_exec_frame x l (it.exec x s)
      -- what the item read keeps its value to the end
      have hkeep : ∀ n ∈ D ++ it.declares, n ∉ declared l := fun n hm =>
        List.disjoint_of_nodup_append hn' hm
      have hread : it.expr.val x (l.foldl (Item.exec x) (it.exec x s)).1 = it.expr.val x s.1 := by
        refine it.expr.val_congr x fun n hm => ?_
        have hD := hu.1 n hm
        rw [hfr.1 n (hkeep n (List.mem_append_left _ hD))]
        cases it with
        | wire m e =>
            have hne : n ≠ m := by
              rintro rfl
              have hd := List.disjoint_of_nodup_append hn hD
              exact hd (List.mem_append_left _ (List.mem_singleton_self n))
            exact Function.update_of_ne hne _ _
        | assign o e => rfl
      intro i hi
      rcases List.mem_cons.mp hi with rfl | hi
      · cases i with
        | wire m e =>
            have hm := hfr.1 m (hkeep m (List.mem_append_right _ (List.mem_singleton_self m)))
            exact hm.trans ((Function.update_self m _ _).trans hread.symm)
        | assign o e =>
            have hd : o ∉ driven l := (List.nodup_cons.mp ho).1
            exact (hfr.2 o hd).trans ((Function.update_self o _ _).trans hread.symm)
      · exact ih (it.exec x s) hu.2 hn' (List.Nodup.of_append_right ho) i hi

/-- **Existence**: execution in order solves the equations. -/
theorem solves_run {l : List (Item ι ν ο)} (x : ι → Bool) (hu : UsesDeclared [] l)
    (hn : (declared l).Nodup) (ho : (driven l).Nodup) : Solves l x (run l x).1 (run l x).2 :=
  solves_foldl_exec x _ hu hn ho

end Netlist
