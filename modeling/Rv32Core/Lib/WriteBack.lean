import Mathlib.Logic.Function.Basic
import Mathlib.Tactic.Common

/-! # Write-back caches

A direct-mapped write-back cache over sets `ι` and tags `τ`, in front of a memory that holds a
line for every tag and set.  `view` is what a reader sees through the cache: the cached line
where the tag matches, the memory elsewhere.  The operations of a write-back cache (fill, write,
write back, drop) change this view in the ways stated here, provided that what they replace is
`Synced`: equal to the memory. -/

namespace WriteBack

variable {ι τ α : Type*} [DecidableEq ι] [DecidableEq τ]

/-- The lines of a direct-mapped cache. -/
structure Lines (ι τ α : Type*) where
  valid : ι → Bool
  dirty : ι → Bool
  tag : ι → τ
  data : ι → α

/-- Overwrite the line at tag `t` and set `i`. -/
def put (m : τ → ι → α) (t : τ) (i : ι) (v : α) : τ → ι → α :=
  fun t' i' => if t' = t ∧ i' = i then v else m t' i'

@[simp] theorem put_self (m : τ → ι → α) (t : τ) (i : ι) (v : α) : put m t i v t i = v :=
  if_pos ⟨rfl, rfl⟩

theorem put_of_tag_ne (m : τ → ι → α) {t t' : τ} (i i' : ι) (v : α) (h : t' ≠ t) :
    put m t i v t' i' = m t' i' := if_neg fun hh => h hh.1

theorem put_of_set_ne (m : τ → ι → α) (t t' : τ) {i i' : ι} (v : α) (h : i' ≠ i) :
    put m t i v t' i' = m t' i' := if_neg fun hh => h hh.2

namespace Lines

variable (c : Lines ι τ α) (m : τ → ι → α)

/-- The line with tag `t` is cached in set `i`. -/
def Hit (t : τ) (i : ι) : Prop := c.valid i = true ∧ c.tag i = t

/-- What a reader sees through the cache. -/
def view (t : τ) (i : ι) : α := if c.valid i = true ∧ c.tag i = t then c.data i else m t i

/-- What set `i` holds, if anything, is what the memory holds. -/
def Synced (i : ι) : Prop := c.valid i = true → c.data i = m (c.tag i) i

/-- A dirty line is valid, and every line that is not dirty equals the memory. -/
structure Coherent : Prop where
  valid_of_dirty : ∀ i, c.dirty i = true → c.valid i = true
  synced : ∀ i, c.dirty i = false → c.Synced m i

variable {c m}

omit [DecidableEq ι] in
theorem view_hit {t : τ} {i : ι} (h : c.Hit t i) : c.view m t i = c.data i := if_pos h

omit [DecidableEq ι] in
theorem view_miss {t : τ} {i : ι} (h : ¬c.Hit t i) : c.view m t i = m t i := if_neg h

omit [DecidableEq ι] in
theorem view_of_invalid (h : ∀ i, c.valid i = false) : c.view m = m := by
  funext t i
  exact view_miss fun hh => by have hv := hh.1; rw [h i] at hv; cases hv

omit [DecidableEq ι] [DecidableEq τ] in
theorem Synced.of_invalid {i : ι} (h : c.valid i = false) : c.Synced m i :=
  fun hv => by rw [h] at hv; cases hv

omit [DecidableEq ι] in
theorem Synced.view_eq {i : ι} (h : c.Synced m i) (t : τ) : c.view m t i = m t i := by
  by_cases hh : c.Hit t i
  · rw [view_hit hh, h hh.1, hh.2]
  · exact view_miss hh

theorem Synced.put {i j : ι} (h : c.Synced m j) (hne : j ≠ i) (t : τ) (v : α) :
    c.Synced (put m t i v) j := fun hv => by rw [h hv, put_of_set_ne _ _ _ _ hne]

omit [DecidableEq ι] in
theorem view_congr_set (c' c : Lines ι τ α) {m' : τ → ι → α} {i : ι}
    (hv : c'.valid i = c.valid i) (ht : c'.tag i = c.tag i) (hd : c'.data i = c.data i)
    (hm : ∀ t, m' t i = m t i) (t : τ) : c'.view m' t i = c.view m t i := by
  unfold view
  rw [hv, ht, hd, hm]

/-! ### The operations -/

/-- Set `i` is filled with a line; its dirty bit becomes `d`. -/
def fill (c : Lines ι τ α) (i : ι) (t : τ) (v : α) (d : Bool) : Lines ι τ α where
  valid := Function.update c.valid i true
  dirty := Function.update c.dirty i d
  tag := Function.update c.tag i t
  data := Function.update c.data i v

/-- The line in set `i` is changed. -/
def write (c : Lines ι τ α) (i : ι) (v : α) : Lines ι τ α where
  valid := c.valid
  dirty := Function.update c.dirty i true
  tag := c.tag
  data := Function.update c.data i v

/-- Set `i` is marked invalid and clean. -/
def drop (c : Lines ι τ α) (i : ι) : Lines ι τ α where
  valid := Function.update c.valid i false
  dirty := Function.update c.dirty i false
  tag := c.tag
  data := c.data

/-- **Fill**: loading a line from memory over a synced set changes nothing that is seen. -/
theorem view_fill {i : ι} (h : c.Synced m i) (t : τ) (d : Bool) :
    (c.fill i t (m t i) d).view m = c.view m := by
  funext t' j
  rcases eq_or_ne j i with rfl | hj
  · rw [h.view_eq]
    by_cases ht : t' = t
    · subst ht
      rw [view_hit ⟨Function.update_self .., Function.update_self ..⟩]
      exact Function.update_self ..
    · refine view_miss fun hh => ht ?_
      rw [← hh.2]
      exact Function.update_self ..
  · exact view_congr_set (c.fill i t (m t i) d) c (Function.update_of_ne hj ..)
      (Function.update_of_ne hj ..) (Function.update_of_ne hj ..) (fun _ => rfl) t'

omit [DecidableEq τ] in
theorem synced_fill (c : Lines ι τ α) (m : τ → ι → α) (i : ι) (t : τ) (d : Bool) :
    (c.fill i t (m t i) d).Synced m i := fun _ => by
  simp only [fill, Function.update_self]

/-- **Write**: writing a cached line overwrites that line in what is seen. -/
theorem view_write {i : ι} {t : τ} (h : c.Hit t i) (v : α) :
    (c.write i v).view m = put (c.view m) t i v := by
  funext t' j
  rcases eq_or_ne j i with rfl | hj
  · by_cases ht : t' = t
    · subst ht
      rw [put_self, view_hit (c := c.write j v) ⟨h.1, h.2⟩]
      exact Function.update_self ..
    · have hm : ¬c.Hit t' j := fun hh => ht (hh.2.symm.trans h.2)
      rw [put_of_tag_ne _ _ _ _ ht, view_miss hm]
      exact view_miss hm
  · rw [put_of_set_ne _ _ _ _ hj]
    exact view_congr_set (c.write i v) c rfl rfl (Function.update_of_ne hj ..)
      (fun _ => rfl) t'

/-- **Write back**: storing a cached line to memory changes nothing that is seen. -/
theorem view_writeBack {i : ι} (h : c.valid i = true) :
    c.view (put m (c.tag i) i (c.data i)) = c.view m := by
  funext t j
  by_cases hh : c.Hit t j
  · rw [view_hit hh, view_hit hh]
  · rw [view_miss hh, view_miss hh]
    refine if_neg fun he => hh ?_
    obtain ⟨rfl, rfl⟩ := he
    exact ⟨h, rfl⟩

theorem synced_writeBack (c : Lines ι τ α) (m : τ → ι → α) (i : ι) :
    c.Synced (put m (c.tag i) i (c.data i)) i := fun _ => (put_self ..).symm

/-- **Drop**: what is seen loses the dropped line. -/
theorem put_view_drop {i : ι} (h : c.valid i = true) :
    put ((c.drop i).view m) (c.tag i) i (c.data i) = c.view m := by
  funext t j
  rcases eq_or_ne j i with rfl | hj
  · by_cases ht : t = c.tag j
    · subst ht
      rw [put_self, view_hit ⟨h, rfl⟩]
    · rw [put_of_tag_ne _ _ _ _ ht, view_miss fun hh => ht hh.2.symm]
      exact (Synced.of_invalid (Function.update_self ..)).view_eq t
  · rw [put_of_set_ne _ _ _ _ hj]
    exact view_congr_set (c.drop i) c (Function.update_of_ne hj ..) rfl rfl (fun _ => rfl) t

theorem view_drop {i : ι} (h : c.Synced m i) : (c.drop i).view m = c.view m := by
  funext t j
  rcases eq_or_ne j i with rfl | hj
  · rw [h.view_eq]
    exact (Synced.of_invalid (Function.update_self ..)).view_eq t
  · exact view_congr_set (c.drop i) c (Function.update_of_ne hj ..) rfl rfl (fun _ => rfl) t

theorem put_view {i : ι} (h : c.valid i = false) (t : τ) (v : α) :
    put (c.view m) t i v = c.view (put m t i v) := by
  funext t' j
  rcases eq_or_ne j i with rfl | hj
  · rw [(Synced.of_invalid h).view_eq t']
    by_cases ht : t' = t
    · rw [ht, put_self, put_self]
    · rw [put_of_tag_ne _ _ _ _ ht, put_of_tag_ne _ _ _ _ ht, (Synced.of_invalid h).view_eq]
  · rw [put_of_set_ne _ _ _ _ hj]
    exact (view_congr_set c c rfl rfl rfl (fun t'' => put_of_set_ne _ _ _ _ hj) t').symm

/-! ### Coherence -/

omit [DecidableEq τ] in
theorem Coherent.fill (h : c.Coherent m) (i : ι) (t : τ) (d : Bool) :
    (c.fill i t (m t i) d).Coherent m := by
  refine ⟨fun j hj => ?_, fun j hj => ?_⟩
  all_goals rcases eq_or_ne j i with rfl | hne
  · exact Function.update_self ..
  · simp only [Lines.fill, Function.update_of_ne hne] at hj ⊢
    exact h.valid_of_dirty j hj
  · exact synced_fill c m j t d
  · simp only [Lines.fill, Function.update_of_ne hne] at hj
    intro hv
    simp only [Lines.fill, Function.update_of_ne hne] at hv ⊢
    exact h.synced j hj hv

omit [DecidableEq τ] in
theorem Coherent.write (h : c.Coherent m) {i : ι} (hv : c.valid i = true) (v : α) :
    (c.write i v).Coherent m := by
  refine ⟨fun j hj => ?_, fun j hj hvj => ?_⟩
  all_goals rcases eq_or_ne j i with rfl | hne
  · exact hv
  · simp only [Lines.write, Function.update_of_ne hne] at hj
    exact h.valid_of_dirty j hj
  · simp only [Lines.write, Function.update_self] at hj
    cases hj
  · simp only [Lines.write, Function.update_of_ne hne] at hj ⊢
    exact h.synced j hj hvj

theorem Coherent.writeBack (h : c.Coherent m) (i : ι) :
    c.Coherent (put m (c.tag i) i (c.data i)) := by
  refine ⟨h.valid_of_dirty, fun j hj => ?_⟩
  rcases eq_or_ne j i with rfl | hne
  · exact synced_writeBack c m j
  · exact (h.synced j hj).put hne _ _

omit [DecidableEq τ] in
theorem Coherent.drop (h : c.Coherent m) (i : ι) : (c.drop i).Coherent m := by
  refine ⟨fun j hj => ?_, fun j hj => ?_⟩
  all_goals rcases eq_or_ne j i with rfl | hne
  · simp only [Lines.drop, Function.update_self] at hj
    cases hj
  · simp only [Lines.drop, Function.update_of_ne hne] at hj ⊢
    exact h.valid_of_dirty j hj
  · exact Synced.of_invalid (Function.update_self ..)
  · simp only [Lines.drop, Function.update_of_ne hne] at hj
    intro hv
    simp only [Lines.drop, Function.update_of_ne hne] at hv
    exact h.synced j hj hv

theorem Coherent.put (h : c.Coherent m) {i : ι} (hv : c.valid i = false) (t : τ) (v : α) :
    c.Coherent (put m t i v) := by
  refine ⟨h.valid_of_dirty, fun j hj => ?_⟩
  rcases eq_or_ne j i with rfl | hne
  · exact .of_invalid hv
  · exact (h.synced j hj).put hne _ _

end Lines
end WriteBack
