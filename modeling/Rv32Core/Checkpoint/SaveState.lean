import Rv32Core.Interpret
import Rv32Core.Lib.Packed

/-! # Checkpoint files

`dumpState` writes the registers of a state and its memory pages that are not zero to a file, and
`loadState` reads such a file into a state.  A file is the list of its bytes.  The pages that are
not in the file keep what the loading state had there: loading restores the saved state exactly
when these are zero in it (`checkpoint_restores_iff`). -/

namespace Rv32Core.Checkpoint

open Iss

/-! ### The file -/

/-- `struct page`. -/
structure Page where
  va : Word
  data : Fin 4096 → BitVec 8

/-- `struct header`. -/
structure Header where
  magic : BitVec 64
  pc : Word
  gpr : Fin 32 → Word
  icnt : BitVec 64
  numNzPages : Word

/-- The image of a page in the file. -/
def pageImage : Packed Page :=
  ((Packed.word 4).pair ((Packed.word 1).array 4096)).record
    (fun m => ⟨m.1, m.2⟩) (fun p => (p.va, p.data)) fun _ => rfl

/-- The image of the header in the file. -/
def headerImage : Packed Header :=
  ((Packed.word 8).pair ((Packed.word 4).pair (((Packed.word 4).array 32).pair
    ((Packed.word 8).pair (Packed.word 4))))).record
    (fun m => ⟨m.1, m.2.1, m.2.2.1, m.2.2.2.1, m.2.2.2.2⟩)
    (fun h => (h.magic, h.pc, h.gpr, h.icnt, h.numNzPages)) fun _ => rfl

/-- The `static_assert` on the size of a page. -/
example : pageImage.size = 4100 := rfl

/-- `MAGICNUM`. -/
def magicnum : BitVec 64 := 0xbeefd00d12345670

/-! ### Saving -/

/-- Page `p` has a word of `mem64` that is not zero. -/
def nzPage (s : Iss) (p : ℕ) : Bool :=
  (List.range 512).any fun pp => bytes s.mem (8 * (p * 512 + pp)) 8 != 0

/-- `nz_pages`, in the order of `find_next`. -/
def nzPages (s : Iss) : List ℕ := (List.range (2 ^ 20)).filter (nzPage s)

/-- The page saved for index `i`. -/
def savedPage (s : Iss) (i : ℕ) : Page :=
  let va : Word := BitVec.ofNat 32 (i * 4096)
  ⟨va, fun k => s.mem (va.toNat + k)⟩

/-- The header of the file. -/
def savedHeader (s : Iss) : Header where
  magic := magicnum
  pc := s.pc
  gpr r := s.gpr (BitVec.ofFin r)
  icnt := s.icnt
  numNzPages := BitVec.ofNat 32 (nzPages s).length

/-- `dumpState`. -/
def dumpState (s : Iss) : List (BitVec 8) :=
  headerImage.encode (savedHeader s) ++ (nzPages s).flatMap fun i => pageImage.encode (savedPage s i)

/-! ### Loading -/

/-- `read` of a record; a short read fails the assertion after it. -/
def readRecord {α : Type} (p : Packed α) (file : List (BitVec 8)) : Option (α × List (BitVec 8)) :=
  if (file.take p.size).length = p.size then
    some (p.decode (file.take p.size), file.drop p.size)
  else none

/-- `memcpy(s.mem+p.va, p.data, 4096)`. -/
def putPage (mem : ℕ → BitVec 8) (p : Page) (x : ℕ) : BitVec 8 :=
  if h : p.va.toNat ≤ x ∧ x - p.va.toNat < 4096 then p.data ⟨x - p.va.toNat, h.2⟩ else mem x

/-- The loop over the `n` pages of the file. -/
def loadPages : ℕ → List (BitVec 8) → (ℕ → BitVec 8) → Option (ℕ → BitVec 8)
  | 0, _, mem => some mem
  | n + 1, file, mem =>
      (readRecord pageImage file).bind fun r => loadPages n r.2 (putPage mem r.1)

/-- `loadState`. -/
def loadState (t : Iss) (file : List (BitVec 8)) : Option Iss :=
  (readRecord headerImage file).bind fun r =>
    let h := r.1
    (loadPages h.numNzPages.toNat r.2 t.mem).map fun mem =>
      { t with pc := h.pc, gpr := fun r => h.gpr r.toFin, icnt := h.icnt, mem := mem }

/-! ### What is restored -/

variable {s t : Iss}

theorem readRecord_encode {α : Type} (p : Packed α) (a : α) (rest : List (BitVec 8)) :
    readRecord p (p.encode a ++ rest) = some (a, rest) := by
  have ht : (p.encode a ++ rest).take p.size = p.encode a := List.take_left' (p.length_encode a)
  rw [readRecord, ht, if_pos (p.length_encode a), p.decode_encode,
    List.drop_left' (p.length_encode a)]

theorem putPage_savedPage (mem : ℕ → BitVec 8) {i : ℕ} (hi : i < 2 ^ 20) (x : ℕ) :
    putPage mem (savedPage s i) x = if x / 4096 = i then s.mem x else mem x := by
  have hva : (savedPage s i).va.toNat = i * 4096 := by
    rw [savedPage, BitVec.toNat_ofNat]
    exact Nat.mod_eq_of_lt (by omega)
  have hdiv : x / 4096 = i ↔ i * 4096 ≤ x ∧ x - i * 4096 < 4096 := by omega
  unfold putPage
  by_cases h : x / 4096 = i
  · obtain ⟨hle, hlt⟩ := hdiv.mp h
    rw [dif_pos (by rw [hva]; exact ⟨hle, hlt⟩), if_pos h]
    show s.mem ((savedPage s i).va.toNat + (x - (savedPage s i).va.toNat)) = s.mem x
    rw [hva, Nat.add_sub_cancel' hle]
  · rw [dif_neg (by rw [hva]; exact fun hc => h (hdiv.mpr hc)), if_neg h]

/-- Loading the pages of a list replaces these pages and no others. -/
theorem loadPages_savedPages (ps : List ℕ) (hps : ∀ i ∈ ps, i < 2 ^ 20) (mem : ℕ → BitVec 8) :
    loadPages ps.length (ps.flatMap fun i => pageImage.encode (savedPage s i)) mem =
      some fun x => if x / 4096 ∈ ps then s.mem x else mem x := by
  induction ps generalizing mem with
  | nil => simp [loadPages]
  | cons i ps ih =>
      rw [List.length_cons, loadPages, List.flatMap_cons, readRecord_encode, Option.bind_some,
        ih fun j hj => hps j (List.mem_cons_of_mem _ hj)]
      congr 1
      funext x
      rw [putPage_savedPage mem (hps i List.mem_cons_self)]
      by_cases hx : x / 4096 ∈ ps
      · rw [if_pos hx, if_pos (List.mem_cons_of_mem _ hx)]
      · simp only [hx, if_false, List.mem_cons, or_false]

/-- **What loading a checkpoint does**: the registers are those saved, and so are the pages that
were not zero; the others stay. -/
theorem loadState_dumpState (s t : Iss) : loadState t (dumpState s) =
    some { t with
      pc := s.pc, gpr := s.gpr, icnt := s.icnt
      mem := fun x => if x / 4096 ∈ nzPages s then s.mem x else t.mem x } := by
  have hlen : (nzPages s).length ≤ 2 ^ 20 := by
    have h := List.length_filter_le (nzPage s) (List.range (2 ^ 20))
    rwa [List.length_range] at h
  have hcount : (savedHeader s).numNzPages.toNat = (nzPages s).length := by
    rw [savedHeader, BitVec.toNat_ofNat]
    exact Nat.mod_eq_of_lt (by omega)
  have hpages : ∀ i ∈ nzPages s, i < 2 ^ 20 := by
    intro i hi
    rw [nzPages, List.mem_filter, List.mem_range] at hi
    exact hi.1
  rw [loadState, dumpState, readRecord_encode, Option.bind_some]
  simp only [hcount, loadPages_savedPages _ hpages, Option.map_some]
  rfl

/-! ### When the state is restored -/

/-- Every byte of page `p` is zero. -/
def ZeroPage (s : Iss) (p : ℕ) : Prop := ∀ k < 4096, s.mem (p * 4096 + k) = 0

theorem nzPage_eq_false_iff {p : ℕ} : nzPage s p = false ↔ ZeroPage s p := by
  have hword : ∀ pp, (bytes s.mem (8 * (p * 512 + pp)) 8 != 0) = false ↔
      ∀ k < 8, s.mem (p * 4096 + (8 * pp + k)) = 0 := by
    intro pp
    rw [bne_eq_false_iff_eq, bytes_eq_zero_iff]
    refine forall₂_congr fun k _ => ?_
    rw [show 8 * (p * 512 + pp) + k = p * 4096 + (8 * pp + k) by omega]
  unfold nzPage
  rw [List.any_eq_false]
  simp only [List.mem_range, Bool.not_eq_true, hword]
  constructor
  · intro h k hk
    have := h (k / 8) (by omega) (k % 8) (Nat.mod_lt _ (by omega))
    rwa [Nat.div_add_mod] at this
  · intro h pp hpp k hk
    exact h _ (by omega)

theorem mem_nzPages {p : ℕ} (hp : p < 2 ^ 20) : p ∈ nzPages s ↔ ¬ ZeroPage s p := by
  rw [nzPages, List.mem_filter, List.mem_range, ← nzPage_eq_false_iff, Bool.not_eq_false]
  exact and_iff_right hp

/-- `t` holds the saved state `s`: pc, registers, instruction count and all `2 ^ 32` bytes. -/
structure Restores (s t : Iss) : Prop where
  pc : t.pc = s.pc
  gpr : t.gpr = s.gpr
  icnt : t.icnt = s.icnt
  mem : ∀ a < 2 ^ 32, t.mem a = s.mem a

/-- **A checkpoint is restored** exactly when the loading state holds zeroes in every page that is
zero in the saved one. -/
theorem checkpoint_restores_iff (s t : Iss) :
    (∃ t', loadState t (dumpState s) = some t' ∧ Restores s t') ↔
      ∀ p < 2 ^ 20, ZeroPage s p → ZeroPage t p := by
  rw [loadState_dumpState]
  constructor
  · rintro ⟨t', ht, hr⟩ p hp hs k hk
    obtain rfl := Option.some.inj ht
    have hdiv : (p * 4096 + k) / 4096 = p := by omega
    have hmem := hr.mem (p * 4096 + k) (by omega)
    simp only [hdiv, mem_nzPages hp, not_not.mpr hs, if_false] at hmem
    exact hmem.trans (hs k hk)
  · intro h
    refine ⟨_, rfl, rfl, rfl, rfl, fun a ha => ?_⟩
    have hp : a / 4096 < 2 ^ 20 := by omega
    by_cases hz : ZeroPage s (a / 4096)
    · have hs := hz (a % 4096) (Nat.mod_lt _ (by omega))
      have ht := h _ hp hz (a % 4096) (Nat.mod_lt _ (by omega))
      rw [Nat.div_add_mod'] at hs ht
      simp only [mem_nzPages hp, not_not.mpr hz, if_false]
      rw [hs, ht]
    · simp only [mem_nzPages hp, hz, not_false_eq_true, if_true]

/-- A state all of whose memory is zero is saved without a page: loaded into a memory of ones it
leaves the ones there. -/
theorem checkpoint_keeps_old_bytes :
    ∃ t', loadState { initState with mem := fun _ => 1 } (dumpState initState) = some t' ∧
      t'.mem 0 ≠ initState.mem 0 := by
  refine ⟨_, loadState_dumpState _ _, ?_⟩
  have hz : 0 ∉ nzPages initState := fun h => (mem_nzPages (by decide)).mp h fun _ _ => rfl
  simp only [Nat.zero_div, hz, if_false]
  decide

end Rv32Core.Checkpoint
