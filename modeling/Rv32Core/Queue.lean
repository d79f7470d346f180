import Rv32Core.Lib.RingBuffer
import Rv32Core.Machine

/-! # Queues of the design

Every queue of the design is a register array with a head and a tail pointer; a cycle writes
the tail slot if it pushes and advances the head if it pops. -/

namespace Rv32Core

open RingBuffer

variable {k : ℕ} {α : Type*}

theorem contents_writeIf (buf : BitVec k → α) {h t : BitVec (k + 1)} (push : Bool) (v : α)
    (hc : push = true → occ h t < 2 ^ k) :
    contents (writeIf push (idx t) v buf) h (t + BitVec.ofNat (k + 1) push.toNat) =
      contents buf h t ++ if push then [v] else [] := by
  cases push
  · simp
  · simp only [writeIf_true, Bool.toNat_true, if_true]
    exact contents_push buf v (hc rfl)

/-- **One cycle of a queue**: at most one entry arrives, at most one leaves. -/
theorem contents_cycle (buf : BitVec k → α) {h t : BitVec (k + 1)} (push pop : Bool) (v : α)
    (hc : push = true → occ h t < 2 ^ k) (hp : pop = true → h ≠ t) :
    contents (writeIf push (idx t) v buf) (h + BitVec.ofNat (k + 1) pop.toNat)
        (t + BitVec.ofNat (k + 1) push.toNat) =
      (contents buf h t).drop pop.toNat ++ if push then [v] else [] := by
  have hpop : pop.toNat ≤ occ h t := by
    cases pop
    · exact Nat.zero_le _
    · exact occ_pos_iff.mpr (hp rfl)
  have h2 : 2 ^ (k + 1) = 2 ^ k + 2 ^ k := by rw [pow_succ]; omega
  have hk : 0 < 2 ^ k := Nat.two_pow_pos k
  have hpush : occ h (t + BitVec.ofNat (k + 1) push.toNat) = occ h t + push.toNat := by
    have := occ_lt h t
    cases push
    · simp
    · have := hc rfl
      exact occ_tail_add h t (by simp only [Bool.toNat_true]; omega)
  rw [contents_drop _ (by omega), contents_writeIf buf push v hc, List.drop_append_of_le_length]
  rw [contents_length]
  exact hpop

end Rv32Core
