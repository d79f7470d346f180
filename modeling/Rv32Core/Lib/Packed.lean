import Mathlib.Data.BitVec
import Mathlib.Data.List.FinRange
import Mathlib.Tactic.Common

/-! # Packed records

The image of a record without padding in a byte stream: every value of the type takes the same
number of bytes, and a reader that is given these bytes gets the value back.  Words are stored
little-endian; pairs and arrays are stored one member after the other. -/

/-- A fixed-size image of the values of a type, with its reader. -/
structure Packed (α : Type*) where
  size : ℕ
  encode : α → List (BitVec 8)
  decode : List (BitVec 8) → α
  length_encode : ∀ a, (encode a).length = size
  decode_encode : ∀ a, decode (encode a) = a

namespace Packed

variable {α β : Type*}

/-! ### Numbers -/

/-- The `n` low bytes of a number, the least significant one first. -/
def toBytes : ℕ → ℕ → List (BitVec 8)
  | 0, _ => []
  | n + 1, v => BitVec.ofNat 8 v :: toBytes n (v / 256)

/-- The number with the given bytes. -/
def ofBytes : List (BitVec 8) → ℕ
  | [] => 0
  | b :: l => b.toNat + 256 * ofBytes l

theorem length_toBytes (n v : ℕ) : (toBytes n v).length = n := by
  induction n generalizing v with
  | zero => rfl
  | succ n ih => rw [toBytes, List.length_cons, ih]

theorem ofBytes_toBytes (n v : ℕ) : ofBytes (toBytes n v) = v % 256 ^ n := by
  induction n generalizing v with
  | zero => rw [pow_zero, Nat.mod_one]; rfl
  | succ n ih =>
      have hpow : 256 ^ (n + 1) = 256 * 256 ^ n := Nat.pow_succ'
      rw [toBytes, ofBytes, ih, BitVec.toNat_ofNat, hpow, Nat.mod_mul]

/-- A word of `n` bytes. -/
def word (n : ℕ) : Packed (BitVec (8 * n)) where
  size := n
  encode v := toBytes n v.toNat
  decode l := BitVec.ofNat _ (ofBytes l)
  length_encode v := length_toBytes n _
  decode_encode v := by
    apply BitVec.eq_of_toNat_eq
    have hpow : 256 ^ n = 2 ^ (8 * n) := (pow_mul 2 8 n).symm
    rw [BitVec.toNat_ofNat, ofBytes_toBytes, hpow, Nat.mod_mod, Nat.mod_eq_of_lt v.isLt]

/-! ### Records -/

/-- Two members. -/
def pair (p : Packed α) (q : Packed β) : Packed (α × β) where
  size := p.size + q.size
  encode a := p.encode a.1 ++ q.encode a.2
  decode l := (p.decode (l.take p.size), q.decode (l.drop p.size))
  length_encode a := by rw [List.length_append, p.length_encode, q.length_encode]
  decode_encode a := by
    rw [List.take_left' (p.length_encode _), List.drop_left' (p.length_encode _), p.decode_encode,
      q.decode_encode]

/-- A record kept as the tuple of its members. -/
def record (p : Packed α) (mk : α → β) (members : β → α) (h : ∀ b, mk (members b) = b) :
    Packed β where
  size := p.size
  encode b := p.encode (members b)
  decode l := mk (p.decode l)
  length_encode b := p.length_encode _
  decode_encode b := by rw [p.decode_encode, h]

theorem take_drop_flatMap (p : Packed α) (l : List α) {i : ℕ} (hi : i < l.length) :
    ((l.flatMap p.encode).drop (i * p.size)).take p.size = p.encode l[i] := by
  induction l generalizing i with
  | nil => exact absurd hi (Nat.not_lt_zero i)
  | cons a l ih =>
      cases i with
      | zero =>
          rw [zero_mul, List.drop_zero, List.flatMap_cons, List.take_left' (p.length_encode a)]
          rfl
      | succ i =>
          rw [List.flatMap_cons, Nat.succ_mul, add_comm, ← List.drop_drop,
            List.drop_left' (p.length_encode a), ih (Nat.lt_of_succ_lt_succ hi)]
          rfl

theorem length_flatMap (p : Packed α) (l : List α) :
    (l.flatMap p.encode).length = l.length * p.size := by
  induction l with
  | nil => exact (zero_mul _).symm
  | cons a l ih =>
      rw [List.flatMap_cons, List.length_append, p.length_encode, ih, List.length_cons,
        Nat.succ_mul, add_comm]

/-- An array of `n` members. -/
def array (n : ℕ) (p : Packed α) : Packed (Fin n → α) where
  size := n * p.size
  encode f := ((List.finRange n).map f).flatMap p.encode
  decode l i := p.decode ((l.drop (i * p.size)).take p.size)
  length_encode f := by rw [length_flatMap, List.length_map, List.length_finRange]
  decode_encode f := by
    funext i
    have hi : (i : ℕ) < ((List.finRange n).map f).length := by
      rw [List.length_map, List.length_finRange]
      exact i.isLt
    rw [take_drop_flatMap p _ hi, p.decode_encode, List.getElem_map, List.getElem_finRange]
    rfl

end Packed
