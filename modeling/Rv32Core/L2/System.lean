import Rv32Core.Lib.Handshake
import Rv32Core.Lib.WriteBack
import Rv32Core.L2.Model

/-! # The second-level cache between its clients and main memory

A state of the system is a state of the cache, the contents of main memory, the request each
first-level cache has outstanding, and the contents the data side expects: the initial memory
overwritten by its stores, each from the cycle on in which its answer is visible.

The clients raise a request for one cycle, in any state of the cache, and hold its address,
operation and data until the answer is visible; a new request may be raised in that cycle.
Main memory answers, after any delay, only while `mem_req_valid` is up. -/

namespace Rv32Core

/-- A request of the data side as it stands on the ports. -/
structure L1dReq where
  addr : Word
  op : MemOp
  data : Line
deriving DecidableEq

/-- The number of a 16-byte line, `addr[31:4]`. -/
def lineNo (addr : Word) : BitVec 28 := addr.extractLsb' 4 28

/-- The number of a 64-byte block, `addr[31:6]`. -/
def blockNo (addr : Word) : BitVec 26 := addr.extractLsb' 6 26

/-! ### Addresses -/

theorem append_inj {n m : ℕ} {a c : BitVec n} {b d : BitVec m} (h : a ++ b = c ++ d) :
    a = c ∧ b = d := by
  have h1 := congrArg (fun x => x.extractLsb' m n) h
  have h2 := congrArg (fun x => x.extractLsb' 0 m) h
  simp only [BitVec.extractLsb'_append_eq_left, BitVec.extractLsb'_append_eq_right] at h1 h2
  exact ⟨h1, h2⟩

theorem blockNo_blockAddr (t : L2Tag) (j : L2Idx) : blockNo (blockAddr t j) = t ++ j :=
  BitVec.extractLsb'_append_eq_left

theorem l2TagOf_blockAddr (t : L2Tag) (j : L2Idx) : l2TagOf (blockAddr t j) = t := by
  have h : l2TagOf (blockAddr t j) = (t ++ j).extractLsb' 14 12 :=
    BitVec.extractLsb'_append_eq_of_le (by decide)
  exact h.trans BitVec.extractLsb'_append_eq_left

theorem blockOf_eq (a : Word) : blockOf a = blockAddr (l2TagOf a) (l2IdxOf a) := by
  unfold blockOf blockAddr l2TagOf l2IdxOf
  rw [BitVec.extractLsb'_append_extractLsb'_eq_extractLsb' (by decide)]

theorem lineNo_eq (a : Word) : lineNo a = l2TagOf a ++ l2IdxOf a ++ bankOf a := by
  unfold lineNo l2TagOf l2IdxOf bankOf
  rw [BitVec.extractLsb'_append_extractLsb'_eq_extractLsb' (by decide),
    BitVec.extractLsb'_append_extractLsb'_eq_extractLsb' (by decide)]

theorem bank_ofBanks (d : Bank → Line) : (Block.ofBanks d).bank = d := by
  funext b
  have hb : ∀ b : Bank, b = 0 ∨ b = 1 ∨ b = 2 ∨ b = 3 := by decide
  rcases hb b with rfl | rfl | rfl | rfl
  · exact BitVec.extractLsb'_append_eq_right
  · show (d 3 ++ d 2 ++ d 1 ++ d 0).extractLsb' 128 128 = d 1
    rw [BitVec.extractLsb'_append_eq_of_le (by decide)]
    exact BitVec.extractLsb'_append_eq_right
  · show (d 3 ++ d 2 ++ d 1 ++ d 0).extractLsb' 256 128 = d 2
    rw [BitVec.extractLsb'_append_eq_of_le (by decide),
      BitVec.extractLsb'_append_eq_of_le (by decide)]
    exact BitVec.extractLsb'_append_eq_right
  · show (d 3 ++ d 2 ++ d 1 ++ d 0).extractLsb' 384 128 = d 3
    rw [BitVec.extractLsb'_append_eq_of_le (by decide),
      BitVec.extractLsb'_append_eq_of_le (by decide)]
    exact BitVec.extractLsb'_append_eq_left
/-! ### The system -/

/-- The second-level cache, main memory and the outstanding requests. -/
structure L2Sys where
  l2 : L2
  mem : BitVec 26 → Block
  l1i : Option Word
  l1d : Option L1dReq
  stored : BitVec 28 → Line

/-- The 16-byte lines of main memory. -/
def memLines (mem : BitVec 26 → Block) (n : BitVec 28) : Line :=
  (mem (n.extractLsb' 2 26)).bank (n.extractLsb' 0 2)

namespace L2Sys

variable (s : L2Sys) (i : L2In)

/-- The request of the instruction side that is still unanswered in this cycle. -/
def openL1i : Option Word := if s.l2.rL1iRspValid then none else s.l1i

/-- The request of the data side that is still unanswered in this cycle. -/
def openL1d : Option L1dReq := if s.l2.rL1dRspValid then none else s.l1d

/-- The request of the instruction side after a pulse of this cycle. -/
def nowL1i : Option Word := if i.l1iReq then some i.l1iAddr else s.openL1i

/-- The request of the data side after a pulse of this cycle. -/
def nowL1d : Option L1dReq :=
  if i.l1dReq then some ⟨i.l1dAddr, i.l1dOpcode, i.l1MemReqStoreData⟩ else s.openL1d

/-- The 16-byte lines as the clients know them: the initial memory and the stores answered up to
this cycle. -/
def contents : BitVec 28 → Line :=
  match s.l1d with
  | some q =>
      if s.l2.rL1dRspValid && q.op == .sw then Function.update s.stored (lineNo q.addr) q.data
      else s.stored
  | none => s.stored

theorem contents_of_none (h : s.l1d = none) : s.contents = s.stored := by
  rw [contents, h]

theorem contents_of_some {q : L1dReq} (h : s.l1d = some q) : s.contents =
    if s.l2.rL1dRspValid && q.op == .sw then Function.update s.stored (lineNo q.addr) q.data
    else s.stored := by
  rw [contents, h]

/-- Main memory after this cycle. -/
def nMem : BitVec 26 → Block :=
  if i.memRspValid && s.l2.rMemOpcode == .sw then
    Function.update s.mem (blockNo s.l2.rAddr) s.l2.rMemReqStoreData
  else s.mem

/-- One rising clock edge. -/
def step : L2Sys where
  l2 := s.l2.step i
  mem := s.nMem i
  l1i := s.nowL1i i
  l1d := s.nowL1d i
  stored := s.contents

/-- What the clients and main memory may do in a cycle. -/
structure Env : Prop where
  /-- One request of the instruction side at a time. -/
  l1i_one : i.l1iReq = true → s.openL1i = none
  /-- It holds its address. -/
  l1i_held : ∀ a, s.nowL1i i = some a → i.l1iAddr = a
  /-- One request of the data side at a time. -/
  l1d_one : i.l1dReq = true → s.openL1d = none
  /-- The data side asks for loads and stores of a line. -/
  l1d_op : i.l1dReq = true → i.l1dOpcode = .lw ∨ i.l1dOpcode = .sw
  /-- It holds its address and operation, and the data of a store. -/
  l1d_held : ∀ q, s.nowL1d i = some q →
    i.l1dAddr = q.addr ∧ i.l1dOpcode = q.op ∧ (q.op = .sw → i.l1MemReqStoreData = q.data)
  /-- Main memory answers only when asked. -/
  mem_asked : i.memRspValid = true → s.l2.rMemReq = true
  /-- A load returns the block stored last. -/
  mem_load : i.memRspValid = true → s.l2.rMemOpcode = .lw →
    i.memRspLoadData = s.mem (blockNo s.l2.rAddr)

end L2Sys

/-- The second-level cache with its surroundings. -/
def l2System : Clocked.Machine L2Sys L2In where
  reset s := (∃ p, s.l2 = L2.init p) ∧ s.l1i = none ∧ s.l1d = none ∧ s.stored = memLines s.mem
  step := L2Sys.step

end Rv32Core
