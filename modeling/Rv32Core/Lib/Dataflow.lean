import Rv32Core.Lib.Rename

/-! # Windows of renamed instructions

An out-of-order machine keeps a window of instructions that were renamed in program order and have
not been committed.  `Window s l` says that the renamer `s` stands where the instructions `l` have
left it: the writers of `l` are those in flight, and each instruction reads the registers that the
ones before it have mapped its sources to.  Issuing, committing and flushing keep this.  In a window
no register that an instruction reads or writes is free, the writers have different registers, and
none of them is mapped by the committed table.

`Executes` is the sequential reading of such a machine: the committed instructions with their
results, each executed on the values its predecessors leave. -/

namespace Rename

variable {A P : Type*}

/-- An instruction in flight: the names it reads with the registers they were renamed to, and its
writer if it has a destination. -/
structure Instr (A P : Type*) where
  reads : List (A × P)
  writer : Option (Entry A P)

variable [DecidableEq A]

/-- The mapping after a writer. -/
def mapped (w : Option (Entry A P)) (r : A → P) : A → P :=
  w.elim r fun w => Function.update r w.ldst w.pdst

/-- Every instruction reads the mapping that the ones before it leave. -/
def Sourced (r : A → P) : List (Instr A P) → Prop
  | [] => True
  | e :: l => (∀ x ∈ e.reads, x.2 = r x.1) ∧ Sourced (mapped e.writer r) l

omit [DecidableEq A] in
/-- The writers of a list of instructions. -/
def writers (l : List (Instr A P)) : List (Entry A P) := l.filterMap Instr.writer

omit [DecidableEq A] in
theorem writers_cons (e : Instr A P) (l : List (Instr A P)) :
    writers (e :: l) = e.writer.toList ++ writers l := by
  cases he : e.writer <;> simp [writers, he]

omit [DecidableEq A] in
theorem writers_append (l m : List (Instr A P)) : writers (l ++ m) = writers l ++ writers m :=
  List.filterMap_append

omit [DecidableEq A] in
theorem mem_writers {l : List (Instr A P)} {w : Entry A P} :
    w ∈ writers l ↔ ∃ e ∈ l, e.writer = some w := List.mem_filterMap

theorem Chain.kept {r r' : A → P} {l : List (Entry A P)} (h : Chain r l r') (a : A) :
    r' a = r a ∨ ∃ w ∈ l, w.old = r a := by
  induction l generalizing r with
  | nil => rw [Chain] at h; exact .inl (congrFun h a)
  | cons w l ih =>
      by_cases hw : w.ldst = a
      · exact .inr ⟨w, List.mem_cons_self, hw ▸ h.1⟩
      · have he : Function.update r w.ldst w.pdst a = r a := Function.update_of_ne (Ne.symm hw) _ _
        obtain hk | ⟨x, hx, hold⟩ := ih h.2
        · exact .inl (hk.trans he)
        · exact .inr ⟨x, List.mem_cons_of_mem _ hx, hold.trans he⟩

theorem Chain.of_writers {r r' : A → P} {e : Instr A P} {l : List (Instr A P)}
    (h : Chain r (writers (e :: l)) r') : Chain (mapped e.writer r) (writers l) r' := by
  rw [writers_cons] at h
  cases he : e.writer with
  | none => rw [he] at h; exact h
  | some w => rw [he] at h; exact h.2

theorem Sourced.append {r r' : A → P} {l : List (Instr A P)} (h : Sourced r l)
    (hc : Chain r (writers l) r') {e : Instr A P} (he : ∀ x ∈ e.reads, x.2 = r' x.1) :
    Sourced r (l ++ [e]) := by
  induction l generalizing r with
  | nil => rw [writers, List.filterMap_nil, Chain] at hc; exact ⟨hc ▸ he, trivial⟩
  | cons d l ih => exact ⟨h.1, ih h.2 hc.of_writers⟩

theorem Sourced.kept {r r' : A → P} {l : List (Instr A P)} (h : Sourced r l)
    (hc : Chain r (writers l) r') {e : Instr A P} (he : e ∈ l) {x : A × P} (hx : x ∈ e.reads) :
    (∃ a, r' a = x.2) ∨ ∃ w ∈ writers l, w.old = x.2 := by
  induction l generalizing r with
  | nil => cases he
  | cons d l ih =>
      obtain rfl | he := List.mem_cons.mp he
      · rw [h.1 x hx]
        exact (hc.kept x.1).imp_left fun hk => ⟨x.1, hk⟩
      · refine (ih h.2 hc.of_writers he).imp_right fun ⟨w, hw, ho⟩ => ⟨w, ?_, ho⟩
        rw [writers_cons]
        exact List.mem_append_right _ hw

namespace State

/-- The renamer after an instruction with the writer `w`, if any. -/
def issue (s : State A P) (w : Option (Entry A P)) : State A P :=
  w.elim s fun w => s.alloc w.ldst w.pdst

/-- The renamer after the commit of the oldest instruction, whose writer is `w`, if any. -/
def commit (s : State A P) (w : Option (Entry A P)) : State A P := w.elim s fun _ => s.retire

end State

variable [Fintype A]

/-- The renamer stands where the instructions have left it. -/
structure Window (s : State A P) (l : List (Instr A P)) : Prop where
  wellFormed : s.WellFormed
  inflight : s.inflight = writers l
  sourced : Sourced s.retireRat l

namespace Window

variable {s : State A P} {l : List (Instr A P)} {e : Instr A P}

/-! ### The operations keep the window -/

theorem issue (h : Window s l) (hr : ∀ x ∈ e.reads, x.2 = s.rat x.1)
    (hw : ∀ w, e.writer = some w → w.pdst ∈ s.free ∧ w.old = s.rat w.ldst) :
    Window (s.issue e.writer) (l ++ [e]) := by
  have hsrc : Sourced s.retireRat (l ++ [e]) :=
    h.sourced.append (h.inflight ▸ h.wellFormed.chain) hr
  cases he : e.writer with
  | none =>
      refine ⟨h.wellFormed, ?_, hsrc⟩
      rw [writers_append, writers_cons, he]
      simpa [State.issue, writers] using h.inflight
  | some w =>
      obtain ⟨hfree, hold⟩ := hw w he
      refine ⟨h.wellFormed.alloc w.ldst hfree, ?_, hsrc⟩
      rw [writers_append, writers_cons, he, ← h.inflight]
      simp only [State.issue, Option.elim, State.alloc, ← hold]
      rfl

theorem commit (h : Window s (e :: l)) : Window (s.commit e.writer) l := by
  have hin := h.inflight
  rw [writers_cons] at hin
  have hsrc := h.sourced.2
  cases he : e.writer with
  | none =>
      rw [he] at hin hsrc
      exact ⟨h.wellFormed, hin, hsrc⟩
  | some w =>
      rw [he] at hin hsrc
      have hl : s.inflight = w :: writers l := hin
      refine ⟨h.wellFormed.retire, ?_, ?_⟩
      · simp [State.commit, State.retire, hl]
      · simpa [State.commit, State.retire, hl, mapped] using hsrc

theorem restore (h : Window s l) : Window s.restore [] :=
  ⟨h.wellFormed.restore, rfl, trivial⟩

/-! ### What the registers of a window are -/

theorem reads_notMem_free (h : Window s l) (he : e ∈ l) {x : A × P} (hx : x ∈ e.reads) :
    x.2 ∉ s.free := fun hf => by
  refine (h.wellFormed.free_iff _).mp hf (State.mem_used.mpr ?_)
  rw [h.inflight]
  exact h.sourced.kept (h.inflight ▸ h.wellFormed.chain) he hx

theorem pdsts_nodup (h : Window s l) : ((writers l).map Entry.pdst).Nodup := by
  have hn := h.wellFormed.nodup
  rw [h.wellFormed.used_eq, h.inflight, Multiset.nodup_add] at hn
  exact Multiset.coe_nodup.mp hn.2.1

theorem retireRat_ne (h : Window s l) {w : Entry A P} (hw : w ∈ writers l) (a : A) :
    s.retireRat a ≠ w.pdst := fun heq => by
  have hn := h.wellFormed.nodup
  rw [h.wellFormed.used_eq, h.inflight, Multiset.nodup_add] at hn
  exact Multiset.disjoint_left.mp hn.2.2
    (Multiset.mem_map_of_mem s.retireRat (Finset.mem_univ a))
    (heq ▸ Multiset.mem_coe.mpr (List.mem_map_of_mem hw))

theorem pdst_notMem_free (h : Window s l) {w : Entry A P} (hw : w ∈ writers l) :
    w.pdst ∉ s.free := fun hf => by
  refine (h.wellFormed.free_iff _).mp hf ?_
  rw [h.wellFormed.used_eq, h.inflight, Multiset.mem_add]
  exact .inr (Multiset.mem_coe.mpr (List.mem_map_of_mem hw))

end Window

/-! ### Sequential execution -/

section Executes

variable {E V : Type*} {sem : E → (A → V) → Prop} {dst : E → Option A} {res : E → V}

omit [Fintype A]

/-- The values of the names after the result `v` of an instruction with the destination `d`. -/
def wrote (d : Option A) (v : V) (f : A → V) : A → V := d.elim f fun a => Function.update f a v

/-- The instructions, executed one after the other from the values `f`, end with the values `g`:
`sem e f` says that `e` can be executed on `f`, with the result `res e` for its destination. -/
def Executes (sem : E → (A → V) → Prop) (dst : E → Option A) (res : E → V) (f : A → V) :
    List E → (A → V) → Prop
  | [], g => g = f
  | e :: l, g => sem e f ∧ Executes sem dst res (wrote (dst e) (res e) f) l g

theorem Executes.append {f g g' : A → V} {l m : List E} (h : Executes sem dst res f l g)
    (h' : Executes sem dst res g m g') : Executes sem dst res f (l ++ m) g' := by
  induction l generalizing f with
  | nil => rw [Executes] at h; exact h ▸ h'
  | cons e l ih => exact ⟨h.1, ih h.2⟩

theorem Executes.split {f g : A → V} {l m : List E} (h : Executes sem dst res f (l ++ m) g) :
    Executes sem dst res f l (l.foldl (fun f e => wrote (dst e) (res e) f) f) ∧
      Executes sem dst res (l.foldl (fun f e => wrote (dst e) (res e) f) f) m g := by
  induction l generalizing f with
  | nil => exact ⟨rfl, h⟩
  | cons e l ih => exact ⟨⟨h.1, (ih h.2).1⟩, (ih h.2).2⟩

theorem Executes.final {f g : A → V} {l : List E} (h : Executes sem dst res f l g) :
    g = l.foldl (fun f e => wrote (dst e) (res e) f) f := by
  induction l generalizing f with
  | nil => exact h
  | cons e l ih => exact ih h.2

theorem wrote_comp {val : P → V} {r : A → P} {w : Option (Entry A P)} {v : V}
    (h : ∀ e, w = some e → val e.pdst = v) :
    wrote (w.map Entry.ldst) v (fun a => val (r a)) = fun a => val (mapped w r a) := by
  cases w with
  | none => rfl
  | some e =>
      funext a
      by_cases ha : a = e.ldst
      · subst ha
        simp [wrote, mapped, h e rfl]
      · simp [wrote, mapped, Function.update_of_ne ha]

end Executes

end Rename
