import Mathlib.Logic.Function.Basic
import Mathlib.Data.List.Basic
import Mathlib.Data.BitVec
import Mathlib.Tactic.Common

/-! # Ring buffers addressed by wrapping pointers

A queue of `2 ^ k` slots whose head and tail pointers have one bit more than a slot number:
the slot is the pointer without its top bit, the queue is empty when the pointers agree and
full when they agree only in the slot.  `contents buf h t` is the list of the entries from
head to tail; the lemmas say what a push and a pop do to that list, and which occupancies the
full test recognises. -/

namespace RingBuffer

variable {k : ℕ} {α : Type*}

/-- The slot a pointer addresses: the pointer without its wrap bit. -/
def idx (p : BitVec (k + 1)) : BitVec k := p.setWidth k

/-- The number of entries from head to tail. -/
def occ (h t : BitVec (k + 1)) : ℕ := (t - h).toNat

/-- The full test of the hardware: same slot, different pointer. -/
def isFull (h t : BitVec (k + 1)) : Bool := idx h == idx t && h != t

/-- The `j`-th slot after the head. -/
def slot (h : BitVec (k + 1)) (j : ℕ) : BitVec k := idx (h + BitVec.ofNat (k + 1) j)

/-- The entries from head to tail, oldest first. -/
def contents (buf : BitVec k → α) (h t : BitVec (k + 1)) : List α :=
  (List.range (occ h t)).map fun j => buf (slot h j)

/-! ### Pointers -/

theorem idx_toNat (p : BitVec (k + 1)) : (idx p).toNat = p.toNat % 2 ^ k := by
  simp [idx, BitVec.toNat_setWidth]

@[simp] theorem occ_self (h : BitVec (k + 1)) : occ h h = 0 := by simp [occ]

theorem occ_lt (h t : BitVec (k + 1)) : occ h t < 2 ^ (k + 1) := (t - h).isLt

theorem occ_eq_zero_iff {h t : BitVec (k + 1)} : occ h t = 0 ↔ h = t := by
  have := h.isLt
  have := t.isLt
  unfold occ
  rw [BitVec.toNat_sub, ← BitVec.toNat_inj]
  constructor
  · intro he
    by_contra hne
    have h2 := Nat.dvd_of_mod_eq_zero he
    obtain ⟨c, hc⟩ := h2
    have : c ≠ 0 := by rintro rfl; omega
    have : c ≠ 1 := by rintro rfl; omega
    have : 2 ^ (k + 1) * 2 ≤ 2 ^ (k + 1) * c := Nat.mul_le_mul_left _ (by omega)
    omega
  · intro he
    rw [he, Nat.sub_add_cancel (by omega), Nat.mod_self]

theorem occ_pos_iff {h t : BitVec (k + 1)} : 0 < occ h t ↔ h ≠ t := by
  rw [Nat.pos_iff_ne_zero, Ne, occ_eq_zero_iff]

theorem occ_tail_add (h t : BitVec (k + 1)) {n : ℕ} (hn : occ h t + n < 2 ^ (k + 1)) :
    occ h (t + BitVec.ofNat (k + 1) n) = occ h t + n := by
  have e : t + BitVec.ofNat (k + 1) n - h = t - h + BitVec.ofNat (k + 1) n := by
    rw [BitVec.sub_eq_add_neg, BitVec.sub_eq_add_neg, BitVec.add_assoc, BitVec.add_assoc,
      BitVec.add_comm _ (-h)]
  unfold occ at hn ⊢
  rw [e, BitVec.toNat_add, BitVec.toNat_ofNat, Nat.mod_eq_of_lt (by omega : n < _),
    Nat.mod_eq_of_lt hn]

theorem occ_head_add (h t : BitVec (k + 1)) {n : ℕ} (hn : n ≤ occ h t) :
    occ (h + BitVec.ofNat (k + 1) n) t = occ h t - n := by
  have := occ_lt h t
  have e : t - (h + BitVec.ofNat (k + 1) n) = t - h - BitVec.ofNat (k + 1) n := by
    rw [BitVec.sub_eq_add_neg, BitVec.sub_eq_add_neg, BitVec.sub_eq_add_neg, BitVec.neg_add,
      BitVec.sub_eq_add_neg, BitVec.add_assoc]
  unfold occ at hn this ⊢
  rw [e, BitVec.toNat_sub_of_le, BitVec.toNat_ofNat, Nat.mod_eq_of_lt (by omega)]
  rw [BitVec.le_def, BitVec.toNat_ofNat, Nat.mod_eq_of_lt (by omega)]
  exact hn

theorem add_ofNat_add (h : BitVec (k + 1)) (m n : ℕ) :
    h + BitVec.ofNat (k + 1) m + BitVec.ofNat (k + 1) n = h + BitVec.ofNat (k + 1) (m + n) := by
  rw [BitVec.ofNat_add, BitVec.add_assoc]

theorem head_add_occ (h t : BitVec (k + 1)) : h + BitVec.ofNat (k + 1) (occ h t) = t := by
  unfold occ
  rw [BitVec.ofNat_toNat, BitVec.setWidth_eq, BitVec.add_comm, BitVec.sub_add_cancel]

/-! ### Slots -/

theorem slot_zero (h : BitVec (k + 1)) : slot h 0 = idx h := by simp [slot]

theorem slot_occ (h t : BitVec (k + 1)) : slot h (occ h t) = idx t := by
  rw [slot, head_add_occ]

theorem slot_head_add (h : BitVec (k + 1)) (n j : ℕ) :
    slot (h + BitVec.ofNat (k + 1) n) j = slot h (n + j) := by
  rw [slot, slot, add_ofNat_add]

theorem slot_toNat (h : BitVec (k + 1)) (j : ℕ) : (slot h j).toNat = (h.toNat + j) % 2 ^ k := by
  rw [slot, idx_toNat, BitVec.toNat_add, BitVec.toNat_ofNat, Nat.add_mod_mod,
    Nat.mod_mod_of_dvd _ (Dvd.intro_left 2 (by rw [pow_succ, mul_comm]))]

/-- Fewer than `2 ^ k` apart, different positions are different slots. -/
theorem slot_inj {h : BitVec (k + 1)} {i j : ℕ} (hi : i < 2 ^ k) (hj : j < 2 ^ k)
    (he : slot h i = slot h j) : i = j := by
  have e : (h.toNat + i) ≡ (h.toNat + j) [MOD 2 ^ k] := by
    have := congrArg BitVec.toNat he
    rwa [slot_toNat, slot_toNat] at this
  have := Nat.ModEq.add_left_cancel' _ e
  rwa [Nat.ModEq, Nat.mod_eq_of_lt hi, Nat.mod_eq_of_lt hj] at this

theorem slot_eq_slot_zero {h : BitVec (k + 1)} {j : ℕ} :
    slot h j = slot h 0 ↔ j % 2 ^ k = 0 := by
  rw [← BitVec.toNat_inj, slot_toNat, slot_toNat]
  constructor
  · intro e
    have := Nat.ModEq.add_left_cancel' h.toNat (show _ ≡ _ [MOD 2 ^ k] from e)
    simpa [Nat.ModEq] using this
  · intro e
    rw [Nat.add_mod, e]
    simp

theorem isFull_iff {h t : BitVec (k + 1)} : isFull h t = true ↔ occ h t = 2 ^ k := by
  have hlt := occ_lt h t
  have hp : 2 ^ (k + 1) = 2 ^ k + 2 ^ k := by rw [pow_succ]; omega
  have hs : idx h = idx t ↔ occ h t % 2 ^ k = 0 := by
    rw [← slot_occ h t, ← slot_zero h, eq_comm, slot_eq_slot_zero]
  rw [isFull, Bool.and_eq_true, beq_iff_eq, bne_iff_ne, hs, Ne, ← occ_eq_zero_iff]
  have hpos : 0 < 2 ^ k := Nat.two_pow_pos k
  constructor
  · rintro ⟨hm, hz⟩
    by_cases hc : occ h t < 2 ^ k
    · rw [Nat.mod_eq_of_lt hc] at hm; omega
    · rw [Nat.mod_eq_sub_mod (by omega), Nat.mod_eq_of_lt (by omega)] at hm
      omega
  · intro he
    rw [he, Nat.mod_self]
    omega

theorem isFull_eq_false_iff {h t : BitVec (k + 1)} (hc : occ h t ≤ 2 ^ k) :
    isFull h t = false ↔ occ h t < 2 ^ k := by
  rw [← Bool.not_eq_true, isFull_iff]
  omega

/-! ### Contents -/

@[simp] theorem contents_length (buf : BitVec k → α) (h t : BitVec (k + 1)) :
    (contents buf h t).length = occ h t := by simp [contents]

@[simp] theorem contents_self (buf : BitVec k → α) (h : BitVec (k + 1)) :
    contents buf h h = [] := by simp [contents]

theorem contents_getElem (buf : BitVec k → α) (h t : BitVec (k + 1)) {j : ℕ}
    (hj : j < (contents buf h t).length) : (contents buf h t)[j] = buf (slot h j) := by
  simp [contents]

theorem mem_contents {buf : BitVec k → α} {h t : BitVec (k + 1)} {x : α} :
    x ∈ contents buf h t ↔ ∃ j < occ h t, buf (slot h j) = x := by
  simp [contents]

/-- Writing slots outside the queue leaves its contents. -/
theorem contents_congr {buf buf' : BitVec k → α} {h t : BitVec (k + 1)}
    (he : ∀ j < occ h t, buf' (slot h j) = buf (slot h j)) :
    contents buf' h t = contents buf h t :=
  List.map_congr_left fun j hj => he j (List.mem_range.mp hj)

theorem contents_push (buf : BitVec k → α) {h t : BitVec (k + 1)} (v : α)
    (hc : occ h t < 2 ^ k) :
    contents (Function.update buf (idx t) v) h (t + 1) = contents buf h t ++ [v] := by
  have hp : 2 ^ (k + 1) = 2 ^ k + 2 ^ k := by rw [pow_succ]; omega
  have ho : occ h (t + 1) = occ h t + 1 := occ_tail_add h t (n := 1) (by omega)
  unfold contents
  rw [ho, List.range_succ, List.map_append]
  congr 1
  · refine List.map_congr_left fun j hj => Function.update_of_ne ?_ _ _
    have hj := List.mem_range.mp hj
    rw [← slot_occ h t]
    intro e
    exact absurd (slot_inj (by omega) hc e) (by omega)
  · simp [slot_occ]

theorem contents_pop (buf : BitVec k → α) {h t : BitVec (k + 1)} (hne : h ≠ t) :
    contents buf h t = buf (idx h) :: contents buf (h + 1) t := by
  have hpos := occ_pos_iff.mpr hne
  have ho : occ (h + 1) t = occ h t - 1 := occ_head_add h t (n := 1) hpos
  obtain ⟨n, hn⟩ := Nat.exists_eq_succ_of_ne_zero hpos.ne'
  unfold contents
  rw [ho, hn, Nat.succ_eq_add_one, Nat.add_sub_cancel, List.range_succ_eq_map, List.map_cons,
    slot_zero, List.map_map]
  refine congrArg (_ :: ·) (List.map_congr_left fun j _ => ?_)
  have := slot_head_add h 1 j
  rw [Function.comp_apply, Nat.succ_eq_add_one, Nat.add_comm j 1, ← this]
  rfl

theorem contents_push_two (buf : BitVec k → α) {h t : BitVec (k + 1)} (v w : α)
    (hc : occ h t + 1 < 2 ^ k) :
    contents (Function.update (Function.update buf (idx t) v) (idx (t + 1)) w) h (t + 2) =
      contents buf h t ++ [v, w] := by
  have hp : 2 ^ (k + 1) = 2 ^ k + 2 ^ k := by rw [pow_succ]; omega
  have ho : occ h (t + 1) = occ h t + 1 := occ_tail_add h t (n := 1) (by omega)
  have e2 : t + 2 = t + 1 + 1 := (add_ofNat_add t 1 1).symm
  rw [e2, contents_push _ _ (by omega), contents_push _ _ (by omega), List.append_assoc]
  rfl

/-- The buffer after the entries `vs` are written from pointer `t` on. -/
def writeFrom (buf : BitVec k → α) (t : BitVec (k + 1)) : List α → BitVec k → α
  | [] => buf
  | v :: vs => writeFrom (Function.update buf (idx t) v) (t + 1) vs

theorem contents_writeFrom {buf : BitVec k → α} {h t : BitVec (k + 1)} {vs : List α}
    (hc : occ h t + vs.length ≤ 2 ^ k) :
    contents (writeFrom buf t vs) h (t + BitVec.ofNat (k + 1) vs.length) =
      contents buf h t ++ vs := by
  have hp : 2 ^ (k + 1) = 2 ^ k + 2 ^ k := by rw [pow_succ]; omega
  induction vs generalizing buf t with
  | nil => simp [writeFrom]
  | cons v vs ih =>
      rw [List.length_cons] at hc
      have ho : occ h (t + 1) = occ h t + 1 := occ_tail_add h t (n := 1) (by omega)
      have ht : t + BitVec.ofNat (k + 1) (v :: vs).length =
          t + 1 + BitVec.ofNat (k + 1) vs.length := by
        have he := add_ofNat_add t 1 vs.length
        rw [Nat.add_comm 1] at he
        exact he.symm
      rw [writeFrom, ht, ih (by omega), contents_push _ _ (by omega), List.append_assoc]
      rfl

theorem contents_drop (buf : BitVec k → α) {h t : BitVec (k + 1)} {n : ℕ} (hn : n ≤ occ h t) :
    contents buf (h + BitVec.ofNat (k + 1) n) t = (contents buf h t).drop n := by
  apply List.ext_getElem
  · rw [List.length_drop, contents_length, contents_length, occ_head_add h t hn]
  · intro j h1 h2
    rw [contents_getElem, List.getElem_drop, contents_getElem, slot_head_add]

end RingBuffer
