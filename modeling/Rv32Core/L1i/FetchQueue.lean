import Rv32Core.L1i.Spec

/-! # The fetch queue as a list

The six pointers of the queue are consistent from its first clearing on, and one cycle takes
the popped entries off the front and puts the pushed ones at the back. -/

namespace Rv32Core

open RingBuffer

namespace L1i

variable {s : L1i} {i : L1iIn}

/-- The entries of the fetch queue, oldest first. -/
def fqView (s : L1i) : List InsnFetch := contents s.rFq s.rFqHeadPtr s.rFqTailPtr

/-- The pointers are consistent. -/
structure FqPtrs (s : L1i) : Prop where
  nextHead : s.rFqNextHeadPtr = s.rFqHeadPtr + 1
  nextTail : s.rFqNextTailPtr = s.rFqTailPtr + 1
  next3Tail : s.rFqNext3TailPtr = s.rFqTailPtr + 2
  next4Tail : s.rFqNext4TailPtr = s.rFqTailPtr + 3
  occ : occ s.rFqHeadPtr s.rFqTailPtr ≤ 8

/-- The core takes only what is offered. -/
structure Acks (s : L1i) (i : L1iIn) : Prop where
  one : i.insnAck = true → s.insnValid = true
  two : i.insnAckTwo = true → s.insnValidTwo = true

/-- The instructions the core takes in the cycle. -/
def popped (s : L1i) (i : L1iIn) : List InsnFetch :=
  if i.insnAck && !i.insnAckTwo then [s.insn]
  else if i.insnAck && i.insnAckTwo then [s.insn, s.insnTwo]
  else []

/-! ### Pushes -/

theorem nPushed_of_silent (h : (s.ctl i).Silent) : s.nPushed i = 0 := by
  simp only [nPushed, h.one, h.two, h.three, h.four, Bool.false_eq_true, if_false]

theorem pushed_of_silent (h : (s.ctl i).Silent) : s.pushed i = [] := by
  rw [pushed, nPushed_of_silent h, List.take_zero]

theorem Pushes.nPushed_eq {n : ℕ} (h : s.Pushes n (s.ctl i)) : s.nPushed i = n := by
  have h0 := h.pos
  have h4 := h.le
  simp only [nPushed, h.one, h.two, h.three, h.four, decide_eq_true_eq]
  split_ifs <;> omega

theorem length_pushed (h : s.nPushed i ≤ 4) : (s.pushed i).length = s.nPushed i := by
  rw [pushed, List.length_take]
  exact Nat.min_eq_left h

theorem FqPtrs.room (hp : s.FqPtrs) {n : ℕ} (h0 : 0 < n) (h4 : n ≤ 4)
    (h : s.fqFullBy n = false) : RingBuffer.occ s.rFqHeadPtr s.rFqTailPtr + n ≤ 8 := by
  have h8 := hp.occ
  -- the full test against the tail advanced by `j` excludes occupancy `8 - j`
  have hne : ∀ j : ℕ, j ≤ 3 →
      isFull s.rFqHeadPtr (s.rFqTailPtr + BitVec.ofNat 4 j) = false →
      RingBuffer.occ s.rFqHeadPtr s.rFqTailPtr ≠ 8 - j := fun j hj hf he => by
    have ho := occ_tail_add s.rFqHeadPtr s.rFqTailPtr (n := j) (by omega)
    have ht : isFull s.rFqHeadPtr (s.rFqTailPtr + BitVec.ofNat 4 j) = true := by
      rw [isFull_iff, ho, he]
      omega
    rw [hf] at ht
    cases ht
  have h1 : s.fqFull = false → RingBuffer.occ s.rFqHeadPtr s.rFqTailPtr ≠ 8 := fun hf =>
    hne 0 (by omega) (by rw [BitVec.add_zero]; exact hf)
  have h2 : s.fqFull2 = false → RingBuffer.occ s.rFqHeadPtr s.rFqTailPtr + 2 ≤ 8 := fun hf => by
    rw [fqFull2, Bool.or_eq_false_iff, hp.nextTail] at hf
    have := hne 1 (by omega) hf.1
    have := h1 hf.2
    omega
  have h3 : s.fqFull3 = false → RingBuffer.occ s.rFqHeadPtr s.rFqTailPtr + 3 ≤ 8 := fun hf => by
    rw [fqFull3, Bool.or_eq_false_iff, hp.next3Tail] at hf
    have := hne 2 (by omega) hf.1
    have := h2 hf.2
    omega
  have hn : n = 1 ∨ n = 2 ∨ n = 3 ∨ n = 4 := by omega
  rcases hn with rfl | rfl | rfl | rfl
  · have := h1 h
    omega
  · exact h2 h
  · exact h3 h
  · have hf : s.fqFull4 = false := h
    rw [fqFull4, Bool.or_eq_false_iff, hp.next4Tail] at hf
    have := hne 3 (by omega) hf.1
    have := h3 hf.2
    omega

/-- The pushes of a cycle fit into the queue. -/
structure Fits (s : L1i) (i : L1iIn) : Prop where
  le : s.nPushed i ≤ 4
  room : s.FqPtrs → RingBuffer.occ s.rFqHeadPtr s.rFqTailPtr + s.nPushed i ≤ 8
  fq : s.FqPtrs → s.nFq i = writeFrom s.rFq s.rFqTailPtr (s.pushed i)
  tail : ∀ p, s.bumpFqTail i p = p + BitVec.ofNat 4 (s.nPushed i)

theorem Fits.of_silent (h : (s.ctl i).Silent) : s.Fits i := by
  constructor
  · rw [nPushed_of_silent h]
    omega
  · rw [nPushed_of_silent h]
    exact fun hp => hp.occ
  · rw [pushed_of_silent h]
    simp only [nFq, h.one, h.two, h.three, h.four, Bool.false_eq_true, if_false]
    exact fun _ => rfl
  · rw [nPushed_of_silent h]
    simp [bumpFqTail, h.one, h.two, h.three, h.four]

theorem Fits.of_pushes {n : ℕ} (h : s.Pushes n (s.ctl i)) : s.Fits i := by
  have h0 := h.pos
  have h4 := h.le
  have hn : n = 1 ∨ n = 2 ∨ n = 3 ∨ n = 4 := by omega
  constructor
  · rw [h.nPushed_eq]
    exact h4
  · rw [h.nPushed_eq]
    exact fun hp => hp.room h0 h4 h.room
  · intro hp
    have e3 : s.rFqTailPtr + 2 = s.rFqTailPtr + 1 + 1 := (add_ofNat_add s.rFqTailPtr 1 1).symm
    have e4 : s.rFqTailPtr + 3 = s.rFqTailPtr + 1 + 1 + 1 := by
      rw [← e3]
      exact (add_ofNat_add s.rFqTailPtr 2 1).symm
    rw [pushed, h.nPushed_eq]
    simp only [nFq, h.one, h.two, h.three, h.four, hp.nextTail, hp.next3Tail, hp.next4Tail, e3, e4]
    rcases hn with rfl | rfl | rfl | rfl <;> simp [candidates, writeFrom]
  · intro p
    rw [h.nPushed_eq]
    simp only [bumpFqTail, h.one, h.two, h.three, h.four]
    rcases hn with rfl | rfl | rfl | rfl <;> simp

theorem fits (s : L1i) (i : L1iIn) : s.Fits i := by
  rcases s.silent_or_delivers i with h | ⟨n, h⟩
  · exact .of_silent h
  · exact .of_pushes h.toPushes

/-! ### Pops -/

/-- How many instructions the core takes. -/
def nPopped (i : L1iIn) : ℕ :=
  if i.insnAck && !i.insnAckTwo then 1 else if i.insnAck && i.insnAckTwo then 2 else 0

theorem bumpFqHead_eq (p : BitVec 4) : bumpFqHead i p = p + BitVec.ofNat 4 (nPopped i) := by
  cases h1 : i.insnAck <;> cases h2 : i.insnAckTwo <;> simp [bumpFqHead, nPopped, h1, h2]

theorem popped_eq (hp : s.FqPtrs) (ha : s.Acks i) :
    nPopped i ≤ RingBuffer.occ s.rFqHeadPtr s.rFqTailPtr ∧ s.popped i = s.fqView.take (nPopped i) := by
  have hone : s.insnValid = true → s.rFqHeadPtr ≠ s.rFqTailPtr := fun h => by
    simpa [insnValid, fqEmpty] using h
  have htwo : s.insnValidTwo = true → s.rFqHeadPtr + 1 ≠ s.rFqTailPtr := fun h => by
    rw [← hp.nextHead]
    intro he
    rw [insnValidTwo, fqNextEmpty, he, beq_self_eq_true, Bool.true_or] at h
    cases h
  cases h1 : i.insnAck
  · have hn : nPopped i = 0 := by simp [nPopped, h1]
    rw [hn]
    exact ⟨Nat.zero_le _, by simp [popped, h1]⟩
  have hne := hone (ha.one h1)
  have hpos := occ_pos_iff.mpr hne
  cases h2 : i.insnAckTwo
  · have hn : nPopped i = 1 := by simp [nPopped, h1, h2]
    rw [hn, fqView, contents_pop _ hne]
    exact ⟨hpos, by simp [popped, h1, h2, insn]⟩
  · have hne2 := htwo (ha.two h2)
    have ho : RingBuffer.occ (s.rFqHeadPtr + 1) s.rFqTailPtr =
        RingBuffer.occ s.rFqHeadPtr s.rFqTailPtr - 1 := occ_head_add _ _ (n := 1) hpos
    have hpos2 := occ_pos_iff.mpr hne2
    have hn : nPopped i = 2 := by simp [nPopped, h1, h2]
    rw [hn, fqView, contents_pop _ hne, contents_pop _ hne2]
    exact ⟨by omega, by simp [popped, h1, h2, insn, insnTwo, hp.nextHead]⟩

/-! ### One cycle -/

theorem fqView_clear (h : (s.ctl i).tClearFq = true) : (s.step i).fqView = [] := by
  have hh : (s.step i).rFqHeadPtr = 0 := if_pos h
  have ht : (s.step i).rFqTailPtr = 0 := if_pos h
  rw [fqView, hh, ht, contents_self]

/-- **One cycle of the fetch queue.**  Nothing is lost, duplicated or overwritten. -/
theorem fqView_step (hp : s.FqPtrs) (ha : s.Acks i) (h : (s.ctl i).tClearFq = false) :
    s.popped i ++ (s.step i).fqView = s.fqView ++ s.pushed i := by
  have hf := s.fits i
  have hlen := length_pushed hf.le
  obtain ⟨hn, hpop⟩ := popped_eq hp ha
  have hroom := hf.room hp
  have hh : (s.step i).rFqHeadPtr = s.rFqHeadPtr + BitVec.ofNat 4 (nPopped i) := by
    rw [← bumpFqHead_eq]
    exact if_neg (by simp [h])
  have ht : (s.step i).rFqTailPtr = s.rFqTailPtr + BitVec.ofNat 4 (s.pushed i).length := by
    rw [hlen, ← hf.tail]
    exact if_neg (by simp [h])
  have hview : contents (s.nFq i) s.rFqHeadPtr (s.step i).rFqTailPtr = s.fqView ++ s.pushed i := by
    rw [ht, hf.fq hp]
    exact contents_writeFrom (by omega)
  have ho : RingBuffer.occ s.rFqHeadPtr (s.step i).rFqTailPtr =
      RingBuffer.occ s.rFqHeadPtr s.rFqTailPtr + s.nPushed i := by
    rw [ht, hlen]
    exact occ_tail_add _ _ (by omega)
  have hdrop : (s.step i).fqView = (s.fqView ++ s.pushed i).drop (nPopped i) := by
    rw [← hview, ← contents_drop _ (by omega), ← hh]
    rfl
  have htake : s.popped i = (s.fqView ++ s.pushed i).take (nPopped i) := by
    rw [hpop, List.take_append_of_le_length]
    rw [fqView, contents_length]
    exact hn
  rw [htake, hdrop, List.take_append_drop]

theorem FqPtrs.of_clear (h : (s.ctl i).tClearFq = true) : (s.step i).FqPtrs := by
  have hh : (s.step i).rFqHeadPtr = 0 := if_pos h
  have ht : (s.step i).rFqTailPtr = 0 := if_pos h
  constructor
  · rw [hh]
    exact if_pos h
  · rw [ht]
    exact if_pos h
  · rw [ht]
    exact if_pos h
  · rw [ht]
    exact if_pos h
  · rw [hh, ht, occ_self]
    omega

theorem FqPtrs.step (hp : s.FqPtrs) (ha : s.Acks i) : (s.step i).FqPtrs := by
  cases hc : (s.ctl i).tClearFq
  case true => exact .of_clear hc
  have hf := s.fits i
  obtain ⟨hn, hpop⟩ := popped_eq hp ha
  have hroom := hf.room hp
  have hhead (d p : BitVec 4) : (if (s.ctl i).tClearFq then d else bumpFqHead i p) =
      p + BitVec.ofNat 4 (nPopped i) := by
    rw [hc, ← bumpFqHead_eq]
    rfl
  have htail (d p : BitVec 4) : (if (s.ctl i).tClearFq then d else s.bumpFqTail i p) =
      p + BitVec.ofNat 4 (s.nPushed i) := by
    rw [hc, ← hf.tail]
    rfl
  have hh : (s.step i).rFqHeadPtr = s.rFqHeadPtr + BitVec.ofNat 4 (nPopped i) := hhead 0 _
  have ht : (s.step i).rFqTailPtr = s.rFqTailPtr + BitVec.ofNat 4 (s.nPushed i) := htail 0 _
  constructor
  · rw [hh, add_right_comm, ← hp.nextHead]
    exact hhead 1 _
  · rw [ht, add_right_comm, ← hp.nextTail]
    exact htail 1 _
  · rw [ht, add_right_comm, ← hp.next3Tail]
    exact htail 2 _
  · rw [ht, add_right_comm, ← hp.next4Tail]
    exact htail 3 _
  · have ho : RingBuffer.occ s.rFqHeadPtr (s.rFqTailPtr + BitVec.ofNat 4 (s.nPushed i)) =
        RingBuffer.occ s.rFqHeadPtr s.rFqTailPtr + s.nPushed i := occ_tail_add _ _ (by omega)
    rw [hh, ht, occ_head_add _ _ (by omega), ho]
    omega

/-! ### The empty queue -/

theorem fqView_eq_nil : s.fqView = [] ↔ s.rFqHeadPtr = s.rFqTailPtr := by
  rw [← List.length_eq_zero_iff, fqView, contents_length, occ_eq_zero_iff]

theorem not_insnValid (h : s.fqView = []) : s.insnValid = false := by
  rw [insnValid, fqEmpty, fqView_eq_nil.mp h, beq_self_eq_true]
  rfl

theorem popped_of_empty (h : s.fqView = []) (ha : s.Acks i) :
    i.insnAck = false ∧ s.popped i = [] := by
  have h1 : i.insnAck = false := by
    by_contra hne
    have hv := ha.one (Bool.not_eq_false _ ▸ hne)
    rw [not_insnValid h] at hv
    cases hv
  exact ⟨h1, by rw [popped, h1]; rfl⟩

theorem fqView_empty_step (h : s.fqView = []) (ha : s.Acks i) (hp : s.pushed i = []) :
    (s.step i).fqView = [] := by
  cases hc : (s.ctl i).tClearFq
  case true => exact fqView_clear hc
  have hf := s.fits i
  have hn : s.nPushed i = 0 := by rw [← length_pushed hf.le, hp, List.length_nil]
  rw [fqView_eq_nil] at h ⊢
  show (if (s.ctl i).tClearFq then 0 else bumpFqHead i s.rFqHeadPtr) =
    if (s.ctl i).tClearFq then 0 else s.bumpFqTail i s.rFqTailPtr
  rw [hc, hf.tail, hn, bumpFqHead, (popped_of_empty (fqView_eq_nil.mpr h) ha).1, h]
  simp

end L1i
end Rv32Core
