import Mathlib.Logic.Function.Basic
import Mathlib.Data.Fintype.Basic
import Mathlib.Data.Nat.Find
import Mathlib.Tactic.Common

/-! # Age matrices

A set of slots whose occupants are ordered by arrival.  The order is kept as a bit matrix: row
`i` marks the slots whose occupants are older than the one of slot `i`.  An arrival copies the
occupied slots into its row, a departure clears its column.  `Ordered` says that the matrix is
the order of given arrival times; it holds whatever arrives in a free slot and whatever
departs, and it makes the oldest of any set of occupants the one whose row avoids the set. -/

namespace AgeMatrix

variable {ι : Type*}

/-- The occupied slots after arrivals and departures. -/
def validNext (alloc select : ι → Bool) (valid : ι → Bool) (i : ι) : Bool :=
  (valid i && !select i) || alloc i

/-- The matrix after arrivals and departures. -/
def matrixNext (alloc select : ι → Bool) (valid : ι → Bool) (m : ι → ι → Bool) (i j : ι) : Bool :=
  if alloc i then valid j && !select j else m i j && !select j

/-- The members of `rdy` with no older member. -/
def oldest [Fintype ι] (m : ι → ι → Bool) (rdy : ι → Bool) (i : ι) : Bool :=
  rdy i && !decide (∃ k, rdy k = true ∧ m i k = true)

/-- The matrix is the order of the arrival times `age` of the occupied slots. -/
structure Ordered (valid : ι → Bool) (m : ι → ι → Bool) (age : ι → ℕ) : Prop where
  row : ∀ i j, m i j = true → valid j = true
  older : ∀ i j, valid i = true → valid j = true → (m i j = true ↔ age j < age i)
  inj : ∀ i j, valid i = true → valid j = true → age i = age j → i = j

variable {valid rdy alloc select : ι → Bool} {m : ι → ι → Bool} {age : ι → ℕ}

theorem Ordered.empty : Ordered (fun _ => false) (fun _ _ => false) age where
  row := fun _ _ h => absurd h Bool.false_ne_true
  older := fun _ _ h => absurd h Bool.false_ne_true
  inj := fun _ _ h => absurd h Bool.false_ne_true

theorem Ordered.exactly_one (h : Ordered valid m age) {i j : ι} (hi : valid i = true)
    (hj : valid j = true) (hne : i ≠ j) : (m i j ^^ m j i) = true := by
  have hij := h.older i j hi hj
  have hji := h.older j i hj hi
  rcases Nat.lt_trichotomy (age i) (age j) with hlt | heq | hgt
  · rw [hji.mpr hlt, Bool.eq_false_iff.mpr (mt hij.mp (by omega))]
    rfl
  · exact absurd (h.inj i j hi hj heq) hne
  · rw [hij.mpr hgt, Bool.eq_false_iff.mpr (mt hji.mp (by omega))]
    rfl

/-- Some member of a nonempty set of occupants arrived first. -/
theorem Ordered.exists_first (h : Ordered valid m age) (hr : ∀ i, rdy i = true → valid i = true)
    (hne : ∃ i, rdy i = true) :
    ∃ k, rdy k = true ∧ ∀ j, rdy j = true → j ≠ k → age k < age j := by
  classical
  have hex : ∃ n i, rdy i = true ∧ age i = n := by
    obtain ⟨i, hi⟩ := hne
    exact ⟨age i, i, hi, rfl⟩
  obtain ⟨k, hk, hak⟩ := Nat.find_spec hex
  refine ⟨k, hk, fun j hj hjk => ?_⟩
  have hle : age k ≤ age j := by
    rw [hak]
    exact Nat.find_min' hex ⟨j, hj, rfl⟩
  have hneq : age k ≠ age j := fun he => hjk (h.inj j k (hr j hj) (hr k hk) he.symm)
  omega

/-- The first to arrive is the one whose row avoids the set. -/
theorem Ordered.oldest_eq [Fintype ι] [DecidableEq ι] (h : Ordered valid m age)
    (hr : ∀ i, rdy i = true → valid i = true) {k : ι} (hk : rdy k = true)
    (hmin : ∀ j, rdy j = true → j ≠ k → age k < age j) (i : ι) :
    oldest m rdy i = decide (i = k) := by
  unfold oldest
  by_cases hik : i = k
  · subst hik
    have hno : ¬∃ j, rdy j = true ∧ m i j = true := by
      rintro ⟨j, hj, hm⟩
      have hlt := (h.older i j (hr i hk) (hr j hj)).mp hm
      by_cases hji : j = i
      · rw [hji] at hlt
        omega
      · have := hmin j hj hji
        omega
    rw [hk, decide_eq_false hno, decide_eq_true rfl]
    rfl
  · rw [decide_eq_false hik]
    cases hi : rdy i
    · rfl
    · have hyes : ∃ j, rdy j = true ∧ m i j = true :=
        ⟨k, hk, (h.older i k (hr i hi) (hr k hk)).mpr (hmin i hi hik)⟩
      rw [decide_eq_true hyes]
      rfl

/-- **One step**: at most one arrival, in a free slot and after all others, and any departures. -/
theorem Ordered.next [DecidableEq ι] (h : Ordered valid m age) {a : ι} {now : ℕ}
    (ha : ∀ i, alloc i = true → i = a) (hfree : ∀ i, alloc i = true → valid i = false)
    (hnow : ∀ i, valid i = true → age i < now) :
    Ordered (validNext alloc select valid) (matrixNext alloc select valid m)
      (fun i => if alloc i then now else age i) := by
  have hkept : ∀ i, alloc i = false → validNext alloc select valid i = true →
      valid i = true ∧ select i = false := fun i hai hv => by
    unfold validNext at hv
    rw [hai, Bool.or_false, Bool.and_eq_true, Bool.not_eq_true'] at hv
    exact hv
  have hself : ∀ i j, alloc i = true → alloc j = true → i = j := fun i j hi hj =>
    (ha i hi).trans (ha j hj).symm
  refine ⟨fun i j hm => ?_, fun i j hi hj => ?_, fun i j hi hj he => ?_⟩
  · unfold matrixNext at hm
    unfold validNext
    split_ifs at hm
    · rw [hm, Bool.true_or]
    · rw [Bool.and_eq_true] at hm
      rw [h.row i j hm.1, hm.2]
      rfl
  · unfold matrixNext
    cases hai : alloc i <;> cases haj : alloc j
    · obtain ⟨hvi, hsi⟩ := hkept i hai hi
      obtain ⟨hvj, hsj⟩ := hkept j haj hj
      simpa [hsj] using h.older i j hvi hvj
    · obtain ⟨hvi, -⟩ := hkept i hai hi
      have hvj := hfree j haj
      have hm : m i j = false := Bool.eq_false_iff.mpr fun hm => by
        rw [h.row i j hm] at hvj
        cases hvj
      have := hnow i hvi
      simp only [hm, Bool.false_and, Bool.false_eq_true, if_false, if_true, false_iff]
      omega
    · obtain ⟨hvj, hsj⟩ := hkept j haj hj
      simpa [hvj, hsj] using hnow j hvj
    · obtain rfl := hself i j hai haj
      simp [hfree i hai]
  · cases hai : alloc i <;> cases haj : alloc j <;> rw [hai, haj] at he
    · exact h.inj i j (hkept i hai hi).1 (hkept j haj hj).1 he
    · have := hnow i (hkept i hai hi).1
      simp only [Bool.false_eq_true, if_false, if_true] at he
      omega
    · have := hnow j (hkept j haj hj).1
      simp only [Bool.false_eq_true, if_false, if_true] at he
      omega
    · exact hself i j hai haj

end AgeMatrix
