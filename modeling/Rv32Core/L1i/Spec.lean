import Rv32Core.L1i.Model

/-! # What one cycle of the instruction cache can do

`Move` lists the cases of the state machine with its outputs written out; everything later is
proved by cases on it.  The pushes of one, two, three and four instructions are one case: the
next lookup is that of the instruction behind the pushed ones, whatever their number and the
place of the first in its line. -/

namespace Rv32Core

open RingBuffer

/-! ### Words of a line -/

/-- The word of its line that an address names, `addr[3:2]`. -/
def wordIdx (addr : Word) : BitVec 2 := addr.extractLsb' 2 2

theorem wordIdx_add (a : Word) {k : ℕ} (hk : k ≤ 4) :
    wordIdx (a + BitVec.ofNat 32 (4 * k)) = wordIdx a + BitVec.ofNat 2 k := by
  apply BitVec.eq_of_toNat_eq
  simp only [wordIdx, BitVec.extractLsb'_toNat, BitVec.toNat_add, BitVec.toNat_ofNat,
    Nat.shiftRight_eq_div_pow]
  omega

theorem lineOf_add (a : Word) {k : ℕ} (hk : (wordIdx a).toNat + k < 4) :
    lineOf (a + BitVec.ofNat 32 (4 * k)) = lineOf a := by
  have h : (a + BitVec.ofNat 32 (4 * k)).extractLsb' 4 28 = a.extractLsb' 4 28 := by
    apply BitVec.eq_of_toNat_eq
    simp only [wordIdx, BitVec.extractLsb'_toNat, Nat.shiftRight_eq_div_pow] at hk
    simp only [BitVec.extractLsb'_toNat, BitVec.toNat_add, BitVec.toNat_ofNat,
      Nat.shiftRight_eq_div_pow]
    omega
  rw [lineOf, h, lineOf]

theorem setOf_add (a : Word) {k : ℕ} (hk : k ≤ 4) :
    setOf (a + BitVec.ofNat 32 (4 * k)) =
      if (wordIdx a).toNat + k < 4 then setOf a else setOf a + 1 := by
  apply BitVec.eq_of_toNat_eq
  by_cases h : (wordIdx a).toNat + k < 4
  · rw [if_pos h]
    simp only [wordIdx, setOf, BitVec.extractLsb'_toNat, BitVec.toNat_add, BitVec.toNat_ofNat,
      Nat.shiftRight_eq_div_pow] at h ⊢
    omega
  · have h1 : (1 : SetIdx).toNat = 1 := rfl
    rw [if_neg h, BitVec.toNat_add (setOf a), h1]
    simp only [wordIdx, setOf, BitVec.extractLsb'_toNat, BitVec.toNat_add, BitVec.toNat_ofNat,
      Nat.shiftRight_eq_div_pow] at h ⊢
    omega

theorem setOf_add_four {a : Word} (h : (wordIdx a).toNat + 1 < 4) : setOf (a + 4) = setOf a := by
  have he := setOf_add a (k := 1) (by omega)
  rwa [if_pos h] at he

/-- The states between a restart and a flush. -/
def L1iState.fetching : L1iState → Bool
  | .active | .injectReload | .reloadTurnaround | .waitForNotFull => true
  | _ => false

/-- Nothing is pushed and nothing predicted. -/
structure L1iCtl.Silent (c : L1iCtl) : Prop where
  one : c.tPushInsn = false
  two : c.tPushInsn2 = false
  three : c.tPushInsn3 = false
  four : c.tPushInsn4 = false
  bubble : c.nResteerBubble = false
  call : c.tIsCall = false
  ret : c.tIsRet = false
  hist : c.tUpdateSpecHist = false

namespace L1i

variable (s : L1i) (i : L1iIn)

/-! ### The branches of the line -/

/-- No branch among the `n` instructions from `r_cache_pc` on but the first. -/
def ClearAfter (n : ℕ) : Prop :=
  ∀ j, 0 < j → j < n → selectPd s.rJumpOut (s.tInsnIdx + BitVec.ofNat 2 j) = 0

/-- The bits of the marker behind its first: the branches of the line up to its end, and the
one that marks the end. -/
theorem marker_getLsbD {j : ℕ} (h0 : 0 < j) (h4 : j < 4) :
    s.tSpecBranchMarker.getLsbD j =
      if s.tInsnIdx.toNat + j < 4 then s.isBranchAt (s.tInsnIdx + BitVec.ofNat 2 j)
      else decide (s.tInsnIdx.toNat + j = 4) := by
  have hx : ∀ x : BitVec 2, x = 0 ∨ x = 1 ∨ x = 2 ∨ x = 3 := by decide
  have hj : j = 1 ∨ j = 2 ∨ j = 3 := by omega
  unfold tSpecBranchMarker branchBits
  rcases hx s.tInsnIdx with h | h | h | h <;> rw [h] <;> rcases hj with rfl | rfl | rfl <;>
    simp only [BitVec.getLsbD_and, BitVec.getLsbD_ushiftRight, BitVec.getLsbD_append,
      BitVec.getLsbD_ofBool] <;> simp

/-- What a marker without early branches tells about the line. -/
theorem clear_of_marker {n : ℕ} (h0 : 0 < n) (hn : n ≤ 4)
    (h : ∀ j, 0 < j → j < n → s.tSpecBranchMarker.getLsbD j = false) :
    s.tInsnIdx.toNat + n ≤ 4 ∧ s.ClearAfter n := by
  have hlt := s.tInsnIdx.isLt
  have hin : ∀ j, 0 < j → j < n → s.tInsnIdx.toNat + j < 4 := fun j hj hjn => by
    by_contra hge
    -- the mark behind the end of the line would be among these bits
    have hm := h (4 - s.tInsnIdx.toNat) (by omega) (by omega)
    rw [s.marker_getLsbD (by omega) (by omega), if_neg (by omega),
      show s.tInsnIdx.toNat + (4 - s.tInsnIdx.toNat) = 4 by omega] at hm
    cases hm
  refine ⟨?_, fun j hj hjn => ?_⟩
  · by_cases h1 : n = 1
    · omega
    · have := hin (n - 1) (by omega) (by omega)
      omega
  · have hm := h j hj hjn
    rw [s.marker_getLsbD hj (by omega), if_pos (hin j hj hjn), isBranchAt, bne_eq_false_iff_eq] at hm
    exact hm

theorem firstBranch_le {j : ℕ} (hj : j < 4) (hm : s.tSpecBranchMarker.getLsbD j = true) :
    s.tFirstBranch.toNat ≤ j := by
  have hj' : j = 0 ∨ j = 1 ∨ j = 2 ∨ j = 3 := by omega
  unfold tFirstBranch
  rcases hj' with rfl | rfl | rfl | rfl <;> rw [if_pos hm]
  · decide
  all_goals split_ifs <;> decide

theorem marker_of_firstBranch {n : ℕ} (hn : n ≤ 4) (h : s.tFirstBranch = BitVec.ofNat 3 n) {j : ℕ}
    (hj : j < n) : s.tSpecBranchMarker.getLsbD j = false := by
  by_contra hm
  have hle := s.firstBranch_le (by omega) (Bool.not_eq_false _ ▸ hm)
  rw [h, BitVec.toNat_ofNat] at hle
  omega

theorem clear_of_firstBranch {n : ℕ} (h0 : 0 < n) (hn : n ≤ 4)
    (h : s.tFirstBranch = BitVec.ofNat 3 n) : s.tInsnIdx.toNat + n ≤ 4 ∧ s.ClearAfter n :=
  s.clear_of_marker h0 hn fun _ _ hj => s.marker_of_firstBranch hn h hj

/-! ### Pushes -/

/-- The instructions that would be pushed if there is room, oldest first. -/
def candidates : List InsnFetch := [s.tInsn i, s.tInsn2, s.tInsn3, s.tInsn4]

/-- How many instructions are pushed. -/
def nPushed : ℕ :=
  let c := s.ctl i
  if c.tPushInsn4 then 4
  else if c.tPushInsn3 then 3
  else if c.tPushInsn2 then 2
  else if c.tPushInsn then 1
  else 0

/-- The instructions pushed in the cycle, oldest first. -/
def pushed : List InsnFetch := (s.candidates i).take (s.nPushed i)

/-- The queue has no room for `n` instructions. -/
def fqFullBy (n : ℕ) : Bool :=
  if n = 4 then s.fqFull4 else if n = 3 then s.fqFull3 else if n = 2 then s.fqFull2 else s.fqFull

/-- The lookup after `n` instructions are pushed: `r_cache_pc` moves on behind them and `r_pc`
is four bytes further. -/
structure Advances (n : ℕ) (c : L1iCtl) : Prop where
  nCachePc : c.nCachePc = s.rCachePc + BitVec.ofNat 32 (4 * n)
  nPc : c.nPc = c.nCachePc + 4
  tCacheIdx : c.tCacheIdx = setOf c.nCachePc
  tCacheTag : c.tCacheTag = tagOf c.nCachePc

/-- `n` instructions are pushed into a queue that has room for them. -/
structure Pushes (n : ℕ) (c : L1iCtl) : Prop where
  pos : 0 < n
  le : n ≤ 4
  room : s.fqFullBy n = false
  one : c.tPushInsn = decide (n = 1)
  two : c.tPushInsn2 = decide (n = 2)
  three : c.tPushInsn3 = decide (n = 3)
  four : c.tPushInsn4 = decide (n = 4)

/-- `n` instructions are pushed, the first of them predicted to fall through. -/
structure FallsThrough (n : ℕ) (c : L1iCtl) : Prop extends s.Pushes n c where
  inLine : s.tInsnIdx.toNat + n ≤ 4
  clear : s.ClearAfter n
  next : s.rPc = s.rCachePc + 4 → s.rCacheIdx = setOf s.rCachePc → s.Advances n c

variable {s i} in
theorem advances_one {c : L1iCtl} (hpc : s.rPc = s.rCachePc + 4) (h1 : c.nCachePc = s.rPc)
    (h2 : c.nPc = s.rPc + 4) (h3 : c.tCacheIdx = setOf s.rPc) (h4 : c.tCacheTag = tagOf s.rPc) :
    s.Advances 1 c := by
  constructor
  · rw [h1, hpc]
    rfl
  · rw [h1, h2]
  · rw [h1, h3]
  · rw [h1, h4]

theorem pushCtl_fallsThrough {c : L1iCtl} (hfull : s.fqFull = false) (h1 : c.nCachePc = s.rPc)
    (h2 : c.nPc = s.rPc + 4) (h3 : c.tCacheIdx = setOf s.rPc) (h4 : c.tCacheTag = tagOf s.rPc)
    (hp1 : c.tPushInsn = false) (hp2 : c.tPushInsn2 = false) (hp3 : c.tPushInsn3 = false)
    (hp4 : c.tPushInsn4 = false) : ∃ n, s.FallsThrough n (s.pushCtl c) := by
  have hadd : ∀ n : ℕ, s.rCachePc + BitVec.ofNat 32 (4 * n) + 4 =
      s.rCachePc + BitVec.ofNat 32 (4 * n + 4) := fun n => by
    rw [BitVec.ofNat_add, BitVec.add_assoc]
    rfl
  unfold pushCtl
  by_cases c4 : s.tFirstBranch = 4 ∧ s.fqFull4 = false
  · rw [if_pos c4]
    obtain ⟨hin, hclear⟩ := s.clear_of_firstBranch (n := 4) (by omega) (by omega) c4.1
    refine ⟨4, ⟨by omega, by omega, c4.2, hp1, hp2, hp3, rfl⟩, hin, hclear, fun hpc hidx => ?_⟩
    refine ⟨rfl, (hadd 4).symm, ?_, rfl⟩
    show s.rCacheIdx + 1 = setOf (s.rCachePc + BitVec.ofNat 32 (4 * 4))
    rw [setOf_add _ (by omega), if_neg (show ¬(wordIdx s.rCachePc).toNat + 4 < 4 by omega), hidx]
  rw [if_neg c4]
  by_cases c3 : s.tFirstBranch = 3 ∧ s.fqFull3 = false
  · rw [if_pos c3]
    obtain ⟨hin, hclear⟩ := s.clear_of_firstBranch (n := 3) (by omega) (by omega) c3.1
    refine ⟨3, ⟨by omega, by omega, c3.2, hp1, hp2, rfl, hp4⟩, hin, hclear, fun hpc hidx => ?_⟩
    refine ⟨rfl, (hadd 3).symm, ?_, rfl⟩
    show (if s.tInsnIdx ≠ 0 then s.rCacheIdx + 1 else c.tCacheIdx) =
      setOf (s.rCachePc + BitVec.ofNat 32 (4 * 3))
    rw [setOf_add _ (by omega), hidx]
    by_cases hz : s.tInsnIdx = 0
    · have hz' : (wordIdx s.rCachePc).toNat = 0 := congrArg BitVec.toNat hz
      rw [if_neg (not_not_intro hz), if_pos (by omega), h3, hpc, setOf_add_four (by omega)]
    · have hz' : (wordIdx s.rCachePc).toNat ≠ 0 := fun h => hz (BitVec.eq_of_toNat_eq h)
      rw [if_pos hz, if_neg (by omega)]
  rw [if_neg c3]
  by_cases c2 : s.tFirstBranch = 2 ∧ s.fqFull2 = false
  · rw [if_pos c2]
    obtain ⟨hin, hclear⟩ := s.clear_of_firstBranch (n := 2) (by omega) (by omega) c2.1
    refine ⟨2, ⟨by omega, by omega, c2.2, hp1, rfl, hp3, hp4⟩, hin, hclear, fun hpc hidx => ?_⟩
    refine ⟨rfl, (hadd 2).symm, ?_, rfl⟩
    show (if s.tInsnIdx = 2 then s.rCacheIdx + 1 else c.tCacheIdx) =
      setOf (s.rCachePc + BitVec.ofNat 32 (4 * 2))
    rw [setOf_add _ (by omega), hidx]
    by_cases hz : s.tInsnIdx = 2
    · have hz' : (wordIdx s.rCachePc).toNat = 2 := congrArg BitVec.toNat hz
      rw [if_pos hz, if_neg (by omega)]
    · have hz' : (wordIdx s.rCachePc).toNat ≠ 2 := fun h => hz (BitVec.eq_of_toNat_eq h)
      have hin' : (wordIdx s.rCachePc).toNat + 2 ≤ 4 := hin
      rw [if_neg hz, if_pos (by omega), h3, hpc, setOf_add_four (by omega)]
  rw [if_neg c2]
  have hlt := s.tInsnIdx.isLt
  refine ⟨1, ⟨by omega, by omega, hfull, rfl, hp2, hp3, hp4⟩, by omega,
    fun j hj hj1 => absurd hj1 (by omega), fun hpc _ => advances_one hpc h1 h2 h3 h4⟩

/-- `c` without what a push sets. -/
def unpushed (c : L1iCtl) : L1iCtl :=
  { c with
    nCachePc := 0
    nPc := 0
    tCacheIdx := 0
    tCacheTag := 0
    tPushInsn := false
    tPushInsn2 := false
    tPushInsn3 := false
    tPushInsn4 := false }

theorem unpushed_pushCtl (c : L1iCtl) : unpushed (s.pushCtl c) = unpushed c := by
  unfold pushCtl
  split_ifs <;> rfl

/-- **A push sets the next lookup and the push outputs only**: an output `f` of another field is the
one before. -/
theorem pushCtl_frame {c : L1iCtl} {α : Type*} (f : L1iCtl → α)
    (hf : ∀ c, f (unpushed c) = f c := by intro _; rfl) : f (s.pushCtl c) = f c := by
  rw [← hf, unpushed_pushCtl, hf]

/-! ### The cases -/

/-- The instruction at `r_cache_pc` is predicted taken. -/
def jumps : Bool :=
  s.tPd == 5 || s.tPd == 3 || (s.tPd == 1 && s.rPhtOut.getLsbD 1) || s.tPd == 2 || s.tPd == 4 ||
    s.tPd == 6

/-- Where it is predicted to go. -/
def jumpTarget : Word :=
  if s.tPd = 5 ∨ s.tPd = 3 then s.rCachePc + s.tJalSimm
  else if s.tPd = 1 then s.rCachePc + s.tBrSimm
  else if s.tPd = 2 then s.rSpecReturnStack s.tNextSpecRsTos
  else s.rBtbPc

/-- The outputs of ACTIVE when a taken branch is pushed. -/
def jumpCtl : L1iCtl :=
  { s.lookupCtl i with
    tUpdateSpecHist := s.tPd != 0
    tIsCflow := true
    tTakeBr := true
    tIsCall := s.tPd == 5 || s.tPd == 6
    tIsRet := s.tPd == 2
    nPc := s.jumpTarget
    nResteerBubble := true
    tPushInsn := true }

theorem fetchCtl_of_jumps (h : s.jumps = true) :
    s.fetchCtl (s.lookupCtl i) = s.jumpCtl i := by
  simp only [jumps, Bool.or_eq_true, Bool.and_eq_true, beq_iff_eq] at h
  rcases h with ((((h | h) | ⟨h, hp⟩) | h) | h) | h
  case inl.inl.inl.inr =>
    simp [fetchCtl, predictCtl, jumpCtl, jumpTarget, lookupCtl, dfltCtl, h, hp]
  all_goals simp [fetchCtl, predictCtl, jumpCtl, jumpTarget, lookupCtl, dfltCtl, h]

variable {i} in
theorem jumpCtl_pushes (hfull : s.fqFull = false) : s.Pushes 1 (s.jumpCtl i) :=
  ⟨by omega, by omega, hfull, rfl, rfl, rfl, rfl⟩

theorem fetchCtl_of_not_jumps (h : s.jumps = false) :
    s.fetchCtl (s.lookupCtl i) =
      s.pushCtl { s.lookupCtl i with tUpdateSpecHist := s.tPd != 0 } := by
  simp only [jumps, Bool.or_eq_false_iff, Bool.and_eq_false_iff, beq_eq_false_iff_ne] at h
  obtain ⟨⟨⟨⟨⟨h5, h3⟩, h1⟩, h2⟩, h4⟩, h6⟩ := h
  have h1' : ¬(s.tPd = 1 ∧ s.rPhtOut.getLsbD 1 = true) := fun ⟨he, hp⟩ => by
    rcases h1 with h1 | h1
    · exact h1 he
    · rw [hp] at h1
      cases h1
  have hp (c : L1iCtl) : s.predictCtl c = c := by
    rw [predictCtl, if_neg (not_or_intro h5 h3), if_neg h1', if_neg h2, if_neg (not_or_intro h4 h6)]
  unfold fetchCtl
  rw [hp]
  rfl

/-- A lookup and the defaults: nothing is accepted, requests are latched. -/
structure Plain (c : L1iCtl) : Prop extends c.Silent where
  memReq : c.nMemReqValid = false
  ack : c.nRestartAck = false
  clear : c.tClearFq = false
  flushComplete : c.nFlushComplete = false
  restartReq : c.nRestartReq = s.anyRestartReq i
  flushReq : c.nFlushReq = s.anyFlushReq i

theorem dfltCtl_plain : s.Plain i (s.dfltCtl i) :=
  ⟨⟨rfl, rfl, rfl, rfl, rfl, rfl, rfl, rfl⟩, rfl, rfl, rfl, rfl, rfl, rfl⟩

theorem lookupCtl_plain : s.Plain i (s.lookupCtl i) :=
  ⟨⟨rfl, rfl, rfl, rfl, rfl, rfl, rfl, rfl⟩, rfl, rfl, rfl, rfl, rfl, rfl⟩

theorem missLookupCtl_plain : s.Plain i (s.missLookupCtl i) :=
  ⟨⟨rfl, rfl, rfl, rfl, rfl, rfl, rfl, rfl⟩, rfl, rfl, rfl, rfl, rfl, rfl⟩

/-- A restart was accepted and no flush since. -/
def running : Bool := s.rState.fetching

/-- What the state machine does in one cycle, with its outputs. -/
inductive Move : Prop
  | boot (hs : s.rState = .initialise) (hc : s.ctl i = { s.dfltCtl i with nState := .initPht })
  | initPht (hs : s.rState = .initPht)
      (hc : s.ctl i =
        { s.dfltCtl i with
          tInitPht := true
          nInitPhtIdx := s.rInitPhtIdx + 1
          nState := if s.rInitPhtIdx = 0xffff then .flushCache else .initPht })
  | walk (hs : s.rState = .flushCache)
      (hc : s.ctl i =
        { s.dfltCtl i with
          nFlushComplete := s.rCacheIdx == 4095
          nState := if s.rCacheIdx = 4095 then .idle else .flushCache
          tCacheIdx := s.rCacheIdx + 1 })
  | idle (hs : s.rState = .idle) (hr : s.anyRestartReq i = false) (hc : s.ctl i = s.dfltCtl i)
  | restart (c : L1iCtl) (hs : s.rState = .idle ∨ s.running = true)
      (hn : s.rState ≠ .injectReload)
      (hr : s.anyRestartReq i = true) (hb : s.rState = .active → s.rResteerBubble = false)
      (hd : s.Plain i c) (hc : s.ctl i = restartCtl i c)
  | flush (c : L1iCtl) (hs : s.running = true) (hn : s.rState ≠ .injectReload)
      (hf : s.anyFlushReq i = true) (hd : s.Plain i c)
      (hc : s.ctl i = flushCtl c)
  | lookup (hs : s.rState = .active) (hr : s.rResteerBubble = true ∨ s.rReq = false)
      (hc : s.ctl i = s.lookupCtl i)
  | miss (hs : s.rState = .active) (hb : s.rResteerBubble = false) (hm : s.tMiss = true)
      (hc : s.ctl i = s.missCtl (s.lookupCtl i))
  | stall (hs : s.rState = .active) (hb : s.rResteerBubble = false) (hh : s.tHit = true)
      (hfull : s.fqFull = true) (hc : s.ctl i = s.stallCtl (s.lookupCtl i))
  | jump (hs : s.rState = .active) (hb : s.rResteerBubble = false) (hh : s.tHit = true)
      (hfull : s.fqFull = false) (hj : s.jumps = true) (hc : s.ctl i = s.jumpCtl i)
  | push (n : ℕ) (hs : s.rState = .active) (hb : s.rResteerBubble = false) (hh : s.tHit = true)
      (hj : s.jumps = false) (hp : s.FallsThrough n (s.ctl i))
      (hc : s.ctl i = s.pushCtl { s.lookupCtl i with tUpdateSpecHist := s.tPd != 0 })
  | reload (hs : s.rState = .injectReload)
      (hc : s.ctl i =
        { s.dfltCtl i with nState := if i.memRspValid then .reloadTurnaround else .injectReload })
  | hold (hs : s.rState = .reloadTurnaround ∨ s.rState = .waitForNotFull)
      (hfull : s.fqFull = true) (pc : Word)
      (hc : s.ctl i = { s.missLookupCtl i with nCachePc := pc })
  | resume (hs : s.rState = .reloadTurnaround ∨ s.rState = .waitForNotFull)
      (hfull : s.fqFull = false)
      (hc : s.ctl i =
        { s.missLookupCtl i with nCachePc := s.rMissPc, nReq := true, nState := .active })

theorem move_active (hs : s.rState = .active) (hc : s.ctl i = s.activeCtl i) : s.Move i := by
  have hrun : s.running = true := by rw [running, hs]; rfl
  have hn : s.rState ≠ .injectReload := by rw [hs]; simp
  unfold activeCtl at hc
  cases hb : s.rResteerBubble
  case true => exact .lookup hs (.inl hb) (by rw [hc, hb]; rfl)
  cases hf : s.anyFlushReq i
  case true => exact .flush _ hrun hn hf (s.lookupCtl_plain i) (by rw [hc, hb, hf]; rfl)
  cases hr : s.anyRestartReq i
  case true =>
    exact .restart _ (.inr hrun) hn hr (fun _ => hb) (s.lookupCtl_plain i)
      (by rw [hc, hb, hf, hr]; rfl)
  cases hq : s.rReq
  case false =>
    have hm : s.tMiss = false := by rw [tMiss, hq]; rfl
    have hh : s.tHit = false := by rw [tHit, hq]; rfl
    exact .lookup hs (.inr hq) (by rw [hc, hb, hf, hr, hm, hh]; rfl)
  cases hm : s.tMiss
  case true => exact .miss hs hb hm (by rw [hc, hb, hf, hr, hm]; rfl)
  have hh : s.tHit = true := by
    rw [tMiss, hq, Bool.true_and, Bool.not_eq_false'] at hm
    rw [tHit, hq, hm]
    rfl
  cases hfull : s.fqFull
  case true => exact .stall hs hb hh hfull (by rw [hc, hb, hf, hr, hm, hh, hfull]; rfl)
  have hc' : s.ctl i = s.fetchCtl (s.lookupCtl i) := by rw [hc, hb, hf, hr, hm, hh, hfull]; rfl
  cases hj : s.jumps
  case true => exact .jump hs hb hh hfull hj (by rw [hc', s.fetchCtl_of_jumps i hj])
  rw [s.fetchCtl_of_not_jumps i hj] at hc'
  obtain ⟨n, hn⟩ := s.pushCtl_fallsThrough (c := { s.lookupCtl i with tUpdateSpecHist := s.tPd != 0 })
    hfull rfl rfl rfl rfl rfl rfl rfl rfl
  exact .push n hs hb hh hj (hc' ▸ hn) hc'

/-- **The cases of the state machine.** -/
theorem move : s.Move i := by
  have hc : s.ctl i = s.ctl i := rfl
  conv_rhs at hc => unfold ctl
  cases hs : s.rState
  case initialise => exact .boot hs (by rw [hc, hs])
  case initPht => exact .initPht hs (by rw [hc, hs]; simp only [initPhtCtl, hs])
  case flushCache => exact .walk hs (by rw [hc, hs]; simp only [flushCacheCtl, hs])
  case active => exact s.move_active i hs (by rw [hc, hs])
  case injectReload => exact .reload hs (by rw [hc, hs]; simp only [injectReloadCtl, hs])
  case idle =>
    cases hr : s.anyRestartReq i
    · exact .idle hs hr (by rw [hc, hs]; simp only [idleCtl, hr]; rfl)
    · exact .restart _ (.inl hs) (by rw [hs]; simp) hr (fun h => by rw [hs] at h; cases h)
        (s.dfltCtl_plain i) (by rw [hc, hs]; simp only [idleCtl, hr]; rfl)
  case reloadTurnaround =>
    have hrun : s.running = true := by rw [running, hs]; rfl
    have hn : s.rState ≠ .injectReload := by rw [hs]; simp
    have hc : s.ctl i = s.reloadTurnaroundCtl i := by rw [hc, hs]
    unfold reloadTurnaroundCtl at hc
    cases hf : s.anyFlushReq i
    case true => exact .flush _ hrun hn hf (s.missLookupCtl_plain i) (by rw [hc, hf]; rfl)
    cases hr : s.anyRestartReq i
    case true =>
      exact .restart _ (.inr hrun) hn hr (fun h => by rw [hs] at h; cases h)
        (s.missLookupCtl_plain i) (by rw [hc, hf, hr]; rfl)
    cases hfull : s.fqFull
    case false => exact .resume (.inl hs) hfull (by rw [hc, hf, hr, hfull]; rfl)
    exact .hold (.inl hs) hfull _ (by rw [hc, hf, hr, hfull]; rfl)
  case waitForNotFull =>
    have hrun : s.running = true := by rw [running, hs]; rfl
    have hn : s.rState ≠ .injectReload := by rw [hs]; simp
    have hc : s.ctl i = s.waitForNotFullCtl i := by rw [hc, hs]
    have hd : s.Plain i { s.missLookupCtl i with nCachePc := s.rMissPc } :=
      ⟨⟨rfl, rfl, rfl, rfl, rfl, rfl, rfl, rfl⟩, rfl, rfl, rfl, rfl, rfl, rfl⟩
    unfold waitForNotFullCtl at hc
    cases hfull : s.fqFull
    case false => exact .resume (.inr hs) hfull (by rw [hc, hfull]; rfl)
    cases hf : s.anyFlushReq i
    case true => exact .flush _ hrun hn hf hd (by rw [hc, hfull, hf]; rfl)
    cases hr : s.anyRestartReq i
    case true =>
      exact .restart _ (.inr hrun) hn hr (fun h => by rw [hs] at h; cases h) hd
        (by rw [hc, hfull, hf, hr]; rfl)
    exact .hold (.inr hs) hfull _ (by rw [hc, hfull, hf, hr]; rfl)

/-- The lookup hits and `n` instructions of the line are delivered, no branch among them but
possibly the first. -/
structure Delivers (n : ℕ) : Prop extends s.Pushes n (s.ctl i) where
  active : s.rState = .active
  steady : s.rResteerBubble = false
  hit : s.tHit = true
  inLine : s.tInsnIdx.toNat + n ≤ 4
  clear : s.ClearAfter n
  call : (s.ctl i).tIsCall = (s.tPd == 5 || s.tPd == 6)
  ret : (s.ctl i).tIsRet = (s.tPd == 2)

theorem silent_or_delivers : (s.ctl i).Silent ∨ ∃ n, s.Delivers i n := by
  have hlt := s.tInsnIdx.isLt
  cases s.move i with
  | jump hs hb hh hfull hj hc =>
      exact .inr ⟨1, hc ▸ jumpCtl_pushes s hfull, hs, hb, hh, by omega,
        fun j hj hj1 => absurd hj1 (by omega), by rw [hc]; rfl, by rw [hc]; rfl⟩
  | push n hs hb hh hj hp hc =>
      refine .inr ⟨n, hp.toPushes, hs, hb, hh, hp.inLine, hp.clear, ?_, ?_⟩
      all_goals
        simp only [jumps, Bool.or_eq_false_iff] at hj
        simp only [hc, s.pushCtl_frame L1iCtl.tIsCall, s.pushCtl_frame L1iCtl.tIsRet, hj]
        rfl
  | restart c hs hn hr hb hd hc | flush c hs hn hf hd hc =>
      rw [hc]
      exact .inl ⟨hd.one, hd.two, hd.three, hd.four, hd.bubble, hd.call, hd.ret, hd.hist⟩
  | boot hs hc | initPht hs hc | walk hs hc | idle hs hr hc | lookup hs hr hc | miss hs hb hm hc
  | stall hs hb hh hfull hc | reload hs hc | hold hs hfull pc hc | resume hs hfull hc =>
      rw [hc]
      exact .inl ⟨rfl, rfl, rfl, rfl, rfl, rfl, rfl, rfl⟩

theorem Delivers.loud {n : ℕ} (h : s.Delivers i n) : ¬(s.ctl i).Silent := fun hq => by
  have hone := h.one
  have htwo := h.two
  have hthree := h.three
  have hfour := h.four
  rw [hq.one] at hone
  rw [hq.two] at htwo
  rw [hq.three] at hthree
  rw [hq.four] at hfour
  have hpos := h.pos
  have hle := h.le
  simp only [false_eq_decide_iff] at hone htwo hthree hfour
  omega

/-- The history is shifted by the prediction of the instruction at `r_cache_pc`, if that is a
branch of some kind; one predicted taken carries the target that is fetched next. -/
theorem Delivers.hist {n : ℕ} (h : s.Delivers i n) :
    (s.ctl i).tUpdateSpecHist = (s.tPd != 0) ∧ (s.ctl i).tTakeBr = s.jumps ∧
      (s.jumps = true → (s.ctl i).nPc = s.jumpTarget) := by
  have hloud := h.loud
  cases s.move i with
  | jump hs hb hh hfull hj hc =>
      rw [hc, hj]
      exact ⟨rfl, rfl, fun _ => rfl⟩
  | push n hs hb hh hj hp hc =>
      rw [hc, hj, s.pushCtl_frame L1iCtl.tUpdateSpecHist, s.pushCtl_frame L1iCtl.tTakeBr]
      exact ⟨rfl, rfl, nofun⟩
  | restart c hs hn hr hb hd hc | flush c hs hn hf hd hc =>
      refine absurd ?_ hloud
      rw [hc]
      exact ⟨hd.one, hd.two, hd.three, hd.four, hd.bubble, hd.call, hd.ret, hd.hist⟩
  | boot hs hc | initPht hs hc | walk hs hc | idle hs hr hc | lookup hs hr hc | miss hs hb hm hc
  | stall hs hb hh hfull hc | reload hs hc | hold hs hfull pc hc | resume hs hfull hc =>
      refine absurd ?_ hloud
      rw [hc]
      exact ⟨rfl, rfl, rfl, rfl, rfl, rfl, rfl, rfl⟩

end L1i
end Rv32Core
