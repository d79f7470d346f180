import Mathlib.Data.Fintype.EquivFin
import Mathlib.Data.Multiset.Bind
import Mathlib.Data.Finset.Insert

/-! # Register renaming

The abstract renamer: a speculative map from architectural to physical registers, the map of
the retired instructions, the two free sets, and the queue of in-flight writers, each with its
new register and the one it replaced.  `alloc` renames one more writer, `retire` commits the
oldest, `restore` throws all in-flight writers away.

`WellFormed` chains each writer's replaced register to the writer before it, and says that the
registers in use (the mapped ones and the replaced ones) are distinct and are exactly those not
free.  All three operations preserve it; nothing is ever lost or freed twice. -/

namespace Rename

variable {A P : Type*}

/-- An in-flight writer of `ldst`: it maps it to `pdst` instead of `old`. -/
structure Entry (A P : Type*) where
  ldst : A
  pdst : P
  old : P

/-- The state of the renamer. -/
structure State (A P : Type*) where
  rat : A → P
  retireRat : A → P
  free : Set P
  retireFree : Set P
  inflight : List (Entry A P)

section Chain

variable [DecidableEq A]

/-- `r'` is `r` after the writers of the list, each of which replaced the mapping it found. -/
def Chain (r : A → P) : List (Entry A P) → (A → P) → Prop
  | [], r' => r' = r
  | e :: l, r' => e.old = r e.ldst ∧ Chain (Function.update r e.ldst e.pdst) l r'

theorem Chain.append {r r' : A → P} {l : List (Entry A P)} (h : Chain r l r') (a : A) (p : P) :
    Chain r (l ++ [⟨a, p, r' a⟩]) (Function.update r' a p) := by
  induction l generalizing r with
  | nil => rw [Chain] at h; subst h; exact ⟨rfl, rfl⟩
  | cons e l ih => exact ⟨h.1, ih h.2⟩

theorem Chain.apply_of_ne {r r' : A → P} {l : List (Entry A P)} (h : Chain r l r') {a : A}
    (ha : ∀ e ∈ l, e.ldst ≠ a) : r' a = r a := by
  induction l generalizing r with
  | nil => rw [Chain] at h; rw [h]
  | cons e l ih =>
      rw [ih h.2 fun e' he' => ha e' (List.mem_cons_of_mem _ he')]
      exact Function.update_of_ne (ha e List.mem_cons_self).symm _ _

variable [Fintype A]

theorem map_update (r : A → P) (a : A) (p : P) :
    (Finset.univ.val.map (Function.update r a p)) + {r a} = Finset.univ.val.map r + {p} := by
  have e : (Finset.univ : Finset A).val = a ::ₘ (Finset.univ.erase a).val := by
    rw [← Finset.insert_val_of_notMem (Finset.notMem_erase a _),
      Finset.insert_erase (Finset.mem_univ a)]
  have h : (Finset.univ.erase a).val.map (Function.update r a p) =
      (Finset.univ.erase a).val.map r :=
    Multiset.map_congr rfl fun x hx => Function.update_of_ne (Finset.mem_erase.mp hx).1 _ _
  rw [e, Multiset.map_cons, Multiset.map_cons, h, Function.update_self,
    ← Multiset.singleton_add, ← Multiset.singleton_add]
  simp only [add_comm, add_left_comm, add_assoc]

/-- **Conservation along a chain**: the final mappings and the replaced registers are the
initial mappings and the new registers. -/
theorem Chain.conserves {r r' : A → P} {l : List (Entry A P)} (h : Chain r l r') :
    Finset.univ.val.map r' + (l.map Entry.old : Multiset P) =
      Finset.univ.val.map r + (l.map Entry.pdst : Multiset P) := by
  induction l generalizing r with
  | nil => rw [Chain] at h; rw [h]; rfl
  | cons e l ih =>
      have h1 := ih h.2
      have h2 := map_update r e.ldst e.pdst
      rw [← h.1] at h2
      rw [List.map_cons, List.map_cons, ← Multiset.cons_coe, ← Multiset.cons_coe,
        ← Multiset.singleton_add, ← Multiset.singleton_add]
      calc _ = Finset.univ.val.map r' + (l.map Entry.old : Multiset P) + {e.old} := by
              simp only [add_comm, add_left_comm]
        _ = Finset.univ.val.map (Function.update r e.ldst e.pdst) + {e.old} +
              (l.map Entry.pdst : Multiset P) := by rw [h1, add_right_comm]
        _ = _ := by rw [h2, add_assoc]

end Chain

namespace State

variable [DecidableEq A]

/-- Rename `a` to the register `p`. -/
def alloc (s : State A P) (a : A) (p : P) : State A P :=
  { s with
    rat := Function.update s.rat a p
    free := s.free \ {p}
    inflight := s.inflight ++ [⟨a, p, s.rat a⟩] }

/-- Commit the oldest writer and free the register it replaced. -/
def retire (s : State A P) : State A P :=
  match s.inflight with
  | [] => s
  | e :: l =>
      { s with
        retireRat := Function.update s.retireRat e.ldst e.pdst
        free := insert e.old s.free
        retireFree := insert e.old (s.retireFree \ {e.pdst})
        inflight := l }

/-- Drop all in-flight writers. -/
def restore (s : State A P) : State A P :=
  { s with rat := s.retireRat, free := s.retireFree, inflight := [] }

variable [Fintype A]

/-- The registers in use: those mapped and those replaced by an in-flight writer. -/
def used (s : State A P) : Multiset P :=
  Finset.univ.val.map s.rat + (s.inflight.map Entry.old : Multiset P)

/-- The renaming invariant. -/
structure WellFormed (s : State A P) : Prop where
  chain : Chain s.retireRat s.inflight s.rat
  nodup : s.used.Nodup
  free_iff : ∀ p, p ∈ s.free ↔ p ∉ s.used
  retireFree_iff : ∀ p, p ∈ s.retireFree ↔ ∀ a, s.retireRat a ≠ p

/-- `a` stays mapped to `p` for ever. -/
structure Pinned (s : State A P) (a : A) (p : P) : Prop where
  retireRat : s.retireRat a = p
  inflight : ∀ e ∈ s.inflight, e.ldst ≠ a

variable {s : State A P}

omit [DecidableEq A] in
theorem mem_used {p : P} : p ∈ s.used ↔ (∃ a, s.rat a = p) ∨ ∃ e ∈ s.inflight, e.old = p := by
  simp [used]

theorem WellFormed.used_eq (h : s.WellFormed) :
    s.used = Finset.univ.val.map s.retireRat + (s.inflight.map Entry.pdst : Multiset P) :=
  h.chain.conserves

theorem WellFormed.rat_injective (h : s.WellFormed) : Function.Injective s.rat := fun a b hab =>
  Multiset.inj_on_of_nodup_map (Multiset.nodup_add.mp h.nodup).1 a (Finset.mem_univ a) b
    (Finset.mem_univ b) hab

theorem WellFormed.retireRat_injective (h : s.WellFormed) : Function.Injective s.retireRat :=
  fun a b hab =>
    Multiset.inj_on_of_nodup_map (Multiset.nodup_add.mp (h.used_eq ▸ h.nodup)).1 a
      (Finset.mem_univ a) b (Finset.mem_univ b) hab

theorem WellFormed.olds_nodup (h : s.WellFormed) : (s.inflight.map Entry.old).Nodup :=
  Multiset.coe_nodup.mp (Multiset.nodup_add.mp h.nodup).2.1

/-- A replaced register is not mapped any more. -/
theorem WellFormed.rat_ne_old (h : s.WellFormed) (a : A) {e : Entry A P} (he : e ∈ s.inflight) :
    s.rat a ≠ e.old := fun heq =>
  Multiset.disjoint_left.mp (Multiset.nodup_add.mp h.nodup).2.2
    (Multiset.mem_map_of_mem s.rat (Finset.mem_univ a))
    (heq ▸ Multiset.mem_coe.mpr (List.mem_map_of_mem he))

theorem WellFormed.rat_notMem_free (h : s.WellFormed) (a : A) : s.rat a ∉ s.free := fun hf =>
  (h.free_iff _).mp hf (mem_used.mpr (.inl ⟨a, rfl⟩))

theorem WellFormed.old_notMem_free (h : s.WellFormed) {e : Entry A P} (he : e ∈ s.inflight) :
    e.old ∉ s.free := fun hf => (h.free_iff _).mp hf (mem_used.mpr (.inr ⟨e, he, rfl⟩))

theorem WellFormed.cover (h : s.WellFormed) (p : P) :
    (∃ a, s.rat a = p) ∨ p ∈ s.free ∨ ∃ e ∈ s.inflight, e.old = p := by
  by_cases hp : p ∈ s.used
  · rcases mem_used.mp hp with ha | he
    · exact .inl ha
    · exact .inr (.inr he)
  · exact .inr (.inl ((h.free_iff p).mpr hp))

/-! ### The operations preserve the invariant -/

theorem used_alloc (s : State A P) (a : A) (p : P) : (s.alloc a p).used = s.used + {p} := by
  have h := map_update s.rat a p
  simp only [used, alloc, List.map_append, List.map_cons, List.map_nil, ← Multiset.coe_add]
  rw [Multiset.coe_singleton, add_comm (s.inflight.map Entry.old : Multiset P), ← add_assoc, h,
    add_right_comm]

theorem WellFormed.alloc (h : s.WellFormed) (a : A) {p : P} (hp : p ∈ s.free) :
    (s.alloc a p).WellFormed where
  chain := h.chain.append a p
  nodup := by
    rw [used_alloc, add_comm, Multiset.singleton_add, Multiset.nodup_cons]
    exact ⟨(h.free_iff p).mp hp, h.nodup⟩
  free_iff q := by
    rw [used_alloc, Multiset.mem_add, Multiset.mem_singleton, not_or, ← h.free_iff q]
    rfl
  retireFree_iff := h.retireFree_iff

theorem used_retire {e : Entry A P} {l : List (Entry A P)} (hl : s.inflight = e :: l) :
    s.retire.used + {e.old} = s.used := by
  simp only [used, retire, hl, List.map_cons, ← Multiset.cons_coe, ← Multiset.singleton_add]
  simp only [add_comm, add_left_comm]

theorem WellFormed.retire_of_cons (h : s.WellFormed) {e : Entry A P} {l : List (Entry A P)}
    (hl : s.inflight = e :: l) : s.retire.WellFormed := by
  have hu := used_retire hl
  have hn := h.nodup
  have hc := h.chain
  have hold : e.old = s.retireRat e.ldst := by rw [hl] at hc; exact hc.1
  rw [← hu, add_comm, Multiset.singleton_add, Multiset.nodup_cons] at hn
  refine ⟨?_, hn.2, fun p => ?_, fun p => ?_⟩
  · rw [hl] at hc
    simpa only [retire, hl] using hc.2
  · have : p ∈ s.retire.free ↔ p = e.old ∨ p ∈ s.free := by simp [retire, hl]
    rw [this, h.free_iff, ← hu, Multiset.mem_add, Multiset.mem_singleton, not_or]
    constructor
    · rintro (rfl | ⟨hp, -⟩)
      · exact hn.1
      · exact hp
    · intro hp
      by_cases he : p = e.old
      · exact .inl he
      · exact .inr ⟨hp, he⟩
  · have hpn : ∀ a, s.retireRat a ≠ e.pdst := fun a ha => by
      refine Multiset.disjoint_left.mp (Multiset.nodup_add.mp (h.used_eq ▸ h.nodup)).2.2
        (Multiset.mem_map_of_mem s.retireRat (Finset.mem_univ a)) (Multiset.mem_coe.mpr ?_)
      rw [ha, hl]
      exact List.mem_cons_self
    have : p ∈ s.retire.retireFree ↔ p = e.old ∨ (p ∈ s.retireFree ∧ p ≠ e.pdst) := by
      simp [retire, hl]
    rw [this, h.retireFree_iff]
    have hr : s.retire.retireRat = Function.update s.retireRat e.ldst e.pdst := by
      simp [retire, hl]
    rw [hr]
    constructor
    · rintro (rfl | ⟨hp, hne⟩) a
      · by_cases ha : a = e.ldst
        · subst ha; rw [Function.update_self, hold]; exact (hpn _).symm
        · rw [Function.update_of_ne ha, hold]; exact fun hc => ha (h.retireRat_injective hc)
      · by_cases ha : a = e.ldst
        · subst ha; rw [Function.update_self]; exact hne.symm
        · rw [Function.update_of_ne ha]; exact hp a
    · intro hp
      by_cases he : p = e.old
      · exact .inl he
      · refine .inr ⟨fun a => ?_, ?_⟩
        · by_cases ha : a = e.ldst
          · subst ha; rw [← hold]; exact Ne.symm he
          · have := hp a; rwa [Function.update_of_ne ha] at this
        · have := hp e.ldst; rw [Function.update_self] at this; exact this.symm

omit [Fintype A] in
theorem retire_of_nil (hl : s.inflight = []) : s.retire = s := by
  unfold retire; rw [hl]

theorem WellFormed.retire (h : s.WellFormed) : s.retire.WellFormed := by
  cases hl : s.inflight with
  | nil => rwa [retire_of_nil hl]
  | cons e l => exact h.retire_of_cons hl

theorem WellFormed.restore (h : s.WellFormed) : s.restore.WellFormed where
  chain := rfl
  nodup := by
    have : s.restore.used = Finset.univ.val.map s.retireRat := by simp [used, State.restore]
    rw [this]
    exact (Multiset.nodup_add.mp (h.used_eq ▸ h.nodup)).1
  free_iff p := by
    have : s.restore.used = Finset.univ.val.map s.retireRat := by simp [used, State.restore]
    rw [this]
    refine (h.retireFree_iff p).trans ?_
    simp
  retireFree_iff := h.retireFree_iff

/-! ### Pinned registers -/

theorem Pinned.rat {a : A} {p : P} (hp : s.Pinned a p) (h : s.WellFormed) : s.rat a = p := by
  rw [h.chain.apply_of_ne hp.inflight, hp.retireRat]

theorem Pinned.notMem_free {a : A} {p : P} (hp : s.Pinned a p) (h : s.WellFormed) :
    p ∉ s.free := by
  have := h.rat_notMem_free a
  rwa [hp.rat h] at this

omit [Fintype A] in
theorem Pinned.alloc {a : A} {p : P} (hp : s.Pinned a p) {b : A} (hb : b ≠ a) (q : P) :
    (s.alloc b q).Pinned a p where
  retireRat := hp.retireRat
  inflight e he := by
    rcases List.mem_append.mp he with he | he
    · exact hp.inflight e he
    · rw [List.mem_singleton.mp he]; exact hb

omit [Fintype A] in
theorem Pinned.retire {a : A} {p : P} (hp : s.Pinned a p) : s.retire.Pinned a p := by
  cases hl : s.inflight with
  | nil => rwa [retire_of_nil hl]
  | cons e l =>
      have hin := hp.inflight
      rw [hl] at hin
      refine ⟨?_, ?_⟩
      · simp only [State.retire, hl]
        rw [Function.update_of_ne (hin e List.mem_cons_self).symm, hp.retireRat]
      · simp only [State.retire, hl]
        exact fun e' he' => hin e' (List.mem_cons_of_mem _ he')

omit [DecidableEq A] [Fintype A] in
theorem Pinned.restore {a : A} {p : P} (hp : s.Pinned a p) : s.restore.Pinned a p where
  retireRat := hp.retireRat
  inflight e he := absurd he (by simp [State.restore])

/-! ### Nothing is lost

What is left of the invariant when `alloc` is given a register that need not be free: every register
is still free or in use, in the speculative and in the retired view. -/

/-- Every register is free, mapped or replaced by an in-flight writer. -/
structure Covers (s : State A P) : Prop where
  chain : Chain s.retireRat s.inflight s.rat
  cover : ∀ p, p ∈ s.free ∨ (∃ a, s.rat a = p) ∨ ∃ e ∈ s.inflight, e.old = p
  retireCover : ∀ p, p ∈ s.retireFree ∨ ∃ a, s.retireRat a = p

theorem WellFormed.covers (h : s.WellFormed) : s.Covers where
  chain := h.chain
  cover p := by
    rcases h.cover p with ha | hf | he
    · exact .inr (.inl ha)
    · exact .inl hf
    · exact .inr (.inr he)
  retireCover p := by
    rw [h.retireFree_iff]
    by_cases hp : ∃ a, s.retireRat a = p
    · exact .inr hp
    · exact .inl (not_exists.mp hp)

omit [Fintype A] in
theorem Covers.alloc (h : s.Covers) (a : A) (p : P) : (s.alloc a p).Covers where
  chain := h.chain.append a p
  cover q := by
    by_cases hq : q = p
    · exact .inr (.inl ⟨a, by rw [hq]; exact Function.update_self a p s.rat⟩)
    · rcases h.cover q with hf | ⟨b, rfl⟩ | ⟨e, he, rfl⟩
      · exact .inl ⟨hf, hq⟩
      · by_cases hb : b = a
        · exact .inr (.inr ⟨⟨a, p, s.rat a⟩, List.mem_append_right _ (List.mem_singleton_self _),
            by rw [hb]⟩)
        · refine .inr (.inl ⟨b, ?_⟩)
          show Function.update s.rat a p b = s.rat b
          rw [Function.update_of_ne hb]
      · exact .inr (.inr ⟨e, List.mem_append_left _ he, rfl⟩)
  retireCover := h.retireCover

omit [Fintype A] in
theorem Covers.retire (h : s.Covers) : s.retire.Covers := by
  cases hl : s.inflight with
  | nil => rwa [retire_of_nil hl]
  | cons e l =>
      have hc := h.chain
      rw [hl] at hc
      refine ⟨?_, fun q => ?_, fun q => ?_⟩
      · simpa only [State.retire, hl] using hc.2
      · simp only [State.retire, hl]
        rcases h.cover q with hf | ha | ⟨e', he, rfl⟩
        · exact .inl (.inr hf)
        · exact .inr (.inl ha)
        · rw [hl] at he
          rcases List.mem_cons.mp he with rfl | he
          · exact .inl (.inl rfl)
          · exact .inr (.inr ⟨e', he, rfl⟩)
      · simp only [State.retire, hl]
        by_cases hp : q = e.pdst
        · exact .inr ⟨e.ldst, by rw [hp, Function.update_self]⟩
        · rcases h.retireCover q with hf | ⟨a, rfl⟩
          · exact .inl (.inr ⟨hf, hp⟩)
          · by_cases ha : a = e.ldst
            · exact .inl (.inl (by rw [ha, hc.1]))
            · exact .inr ⟨a, Function.update_of_ne ha _ _⟩

omit [Fintype A] in
theorem Covers.restore (h : s.Covers) : s.restore.Covers where
  chain := rfl
  cover p := (h.retireCover p).imp_right .inl
  retireCover := h.retireCover

/-- With no writer in flight and more registers than names, some register is free. -/
theorem Covers.exists_free [Fintype P] (h : s.Covers) (h0 : s.inflight = [])
    (hc : Fintype.card A < Fintype.card P) : ∃ p, p ∈ s.free := by
  by_contra hno
  have hsurj : Function.Surjective s.rat := fun p => by
    rcases h.cover p with hf | ha | ⟨e, he, -⟩
    · exact absurd ⟨p, hf⟩ hno
    · exact ha
    · rw [h0] at he
      cases he
  have := Fintype.card_le_of_surjective _ hsurj
  omega

end State
end Rename
