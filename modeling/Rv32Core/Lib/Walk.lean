import Mathlib.Data.List.Basic
import Mathlib.Tactic.Common

/-! # Walks

A list of edges is a walk from `p` to `q` when the first edge leaves `p`, each edge leaves the
point where the one before it arrives and the last arrives at `q`. -/

namespace Walk

variable {α β : Type*} {src dst : α → β}

/-- `IsWalk src dst p xs q`: the edges `xs` lead from `p` to `q` without a gap. -/
def IsWalk (src dst : α → β) : β → List α → β → Prop
  | p, [], q => p = q
  | p, x :: xs, q => src x = p ∧ IsWalk src dst (dst x) xs q

theorem IsWalk.nil (p : β) : IsWalk src dst p [] p := rfl

theorem IsWalk.append {p q r : β} {xs ys : List α} (h : IsWalk src dst p xs q)
    (h' : IsWalk src dst q ys r) : IsWalk src dst p (xs ++ ys) r := by
  induction xs generalizing p with
  | nil => exact (show p = q from h) ▸ h'
  | cons x xs ih => exact ⟨h.1, ih h.2⟩

theorem IsWalk.split {p q : β} {xs ys : List α} (h : IsWalk src dst p (xs ++ ys) q) :
    ∃ r, IsWalk src dst p xs r ∧ IsWalk src dst r ys q := by
  induction xs generalizing p with
  | nil => exact ⟨p, rfl, h⟩
  | cons x xs ih =>
      obtain ⟨r, hr, hq⟩ := ih h.2
      exact ⟨r, ⟨h.1, hr⟩, hq⟩

theorem IsWalk.unique {p q r : β} {xs : List α} (h : IsWalk src dst p xs q)
    (h' : IsWalk src dst p xs r) : q = r := by
  induction xs generalizing p with
  | nil => exact (show p = q from h).symm.trans h'
  | cons x xs ih => exact ih h.2 h'.2

theorem IsWalk.consecutive {p q : β} {xs ys : List α} {x y : α}
    (h : IsWalk src dst p (xs ++ x :: y :: ys) q) : src y = dst x := by
  induction xs generalizing p with
  | nil => exact h.2.1
  | cons z xs ih => exact ih h.2

end Walk
