import Rv32Core.Core.Renaming

/-! # The registers handed out by the allocator

ACTIVE asks whether the bank selected for the first uop still has a free register;
ALLOC_FOR_SERIALIZE and ALLOC_FOR_MONITOR only ask whether some register is free.  While the
selected bank has one in those two states as well (`BankReady`), every register handed out is
free and register 0 never becomes free, in runs through any states of the machine, faults
included.  When it has none the encoder answers 64 and register 0 is handed out. -/

namespace Rv32Core

open RingBuffer

namespace Core

variable {s : Core} {i : CoreIn}

/-! ### The ROB slots in use since reset -/

/-- An observer that collects the ROB slots allocated so far. -/
def everAllocated (o : RobPtr → Bool) (s : Core) (i : CoreIn) : RobPtr → Bool :=
  o
    |> writeIf (s.ctl i).tAlloc (idx s.rRobTailPtr) true
    |> writeIf (s.ctl i).tAllocTwo (idx s.rRobNextTailPtr) true

/-- The core with that observer. -/
abbrev allocMachine : Clocked.Machine (Core × (RobPtr → Bool)) CoreIn :=
  coreMachine.observed (fun _ => false) everAllocated

/-- The execution unit and the data cache only report on slots that have been allocated. -/
structure ReportsAllocated (o : RobPtr → Bool) (i : CoreIn) : Prop where
  complete1 : i.tCompleteValid1 = true → o i.tCompleteBundle1.robPtr = true
  complete2 : i.tCompleteValid2 = true → o i.tCompleteBundle2.robPtr = true
  mem : i.coreMemRspValid = true → o i.coreMemRsp.robPtr = true

/-- Unless the core drains, which gives up waiting for some of them, the execution unit and the
data cache answer uops in flight, each once. -/
def AnswersInflight (s : Core) (i : CoreIn) : Prop :=
  s.rDsDone = false →
  (i.tCompleteValid1 = true → s.rRobInflight i.tCompleteBundle1.robPtr = true) ∧
  (i.tCompleteValid2 = true → s.rRobInflight i.tCompleteBundle2.robPtr = true) ∧
  (i.coreMemRspValid = true → s.rRobInflight i.coreMemRsp.robPtr = true)

instance : Decidable (AnswersInflight s i) := by
  unfold AnswersInflight
  infer_instance

/-- A serializing uop with a destination is allocated only while its bank has a register. -/
def BankReady (s : Core) (i : CoreIn) : Prop :=
  s.rState = .allocForSerialize ∨ s.rState = .allocForMonitor →
    s.allocSerial i = true → s.tUop.dstValid = true → s.tGprFfsFull = false

/-- What the allocator is for: the registers of the cycle are free, and none is register 0. -/
def AllocatesFree (s : Core) (i : CoreIn) : Prop :=
  ((s.ctl i).tAlloc = true → s.tUop.dstValid = true →
    s.rPrfFree s.nPrfEntry = true ∧ s.nPrfEntry ≠ 0) ∧
  ((s.ctl i).tAllocTwo = true → s.tUop2.dstValid = true →
    s.rPrfFree s.nPrfEntry2 = true ∧ s.nPrfEntry2 ≠ 0)

/-! ### The invariant -/

/-- The registers of an entry are not register 0. -/
def EntryOk (e : RobEntry) : Prop :=
  e.validDst = true → e.ldst ≠ 0 ∧ e.pdst ≠ 0 ∧ e.oldPdst ≠ 0

/-- Register 0 belongs to `x0` alone.  Slots are followed whether or not they are between head
and tail, since a fault may leave entries behind; a slot never allocated is never complete. -/
structure ZeroInv (s : Core) (o : RobPtr → Bool) : Prop where
  dqPtrs : s.DqPtrs
  dqOk : s.DqOk
  prfFree : s.rPrfFree 0 = false
  retirePrfFree : s.rRetirePrfFree 0 = false
  allocRat : ∀ a, a ≠ 0 → s.rAllocRat a ≠ 0
  retireRat : ∀ a, a ≠ 0 → s.rRetireRat a ≠ 0
  slot : ∀ p, o p = true → EntryOk (s.rRob p)
  unused : ∀ p, o p = false → s.rRobComplete p = false

theorem writeIf_ne {ι α : Type*} [DecidableEq ι] {b : Bool} {a : ι} {v w : α} {f : ι → α} {x : ι}
    (hf : f x ≠ w) (hv : b = true → v ≠ w) : writeIf b a v f x ≠ w := by
  rw [writeIf_apply]
  split_ifs with h
  · exact hv h.1
  · exact hf

theorem writeIf_eq {ι α : Type*} [DecidableEq ι] {b : Bool} {a : ι} {v w : α} {f : ι → α} {x : ι}
    (hf : f x = w) (hv : b = true → x = a → v = w) : writeIf b a v f x = w := by
  rw [writeIf_apply]
  split_ifs with h
  · exact hv h.1 h.2
  · exact hf

theorem allocatesFree (h0 : s.rPrfFree 0 = false) (hb : s.BankReady i) : s.AllocatesFree i := by
  have hne : ∀ p, s.rPrfFree p = true → p ≠ 0 := fun p hp he => by
    rw [he, h0] at hp
    cases hp
  refine ⟨fun ha hd => ?_, fun ha hd => ?_⟩
  · have hf : s.rPrfFree s.nPrfEntry = true := by
      have ha' := ha
      rw [ctl_tAlloc] at ha'
      cases hs : s.rState <;> simp only [hs] at ha' <;>
        first | exact absurd ha' Bool.false_ne_true | skip
      · exact (nPrfEntry_free hs ha hd).1
      · exact (nPrfEntry_of_bank (hb (.inl hs) ha' hd)).1
      · exact (nPrfEntry_of_bank (hb (.inr hs) ha' hd)).1
    exact ⟨hf, hne _ hf⟩
  · have hf := (nPrfEntry2_free ha hd).1
    exact ⟨hf, hne _ hf⟩

/-- With the selected bank exhausted the register on offer is register 0. -/
theorem nPrfEntry_of_full (h : s.tGprFfsFull = true) : s.nPrfEntry = 0 := by
  have h64 : (BitVec.twoPow 7 6).setWidth 6 = (0 : PrfPtr) := by decide
  unfold tGprFfsFull at h
  unfold nPrfEntry tGprFfs
  split_ifs at h ⊢ with hb
  · exact (congrArg (BitVec.setWidth 6) (findFirstSet_of_isZero (k := 3) _ h)).trans h64
  · exact (congrArg (BitVec.setWidth 6) (findFirstSet_of_isZero (k := 3) _ h)).trans h64

/-- Exactly then a register that is not free is handed out. -/
theorem allocatesFree_iff (h0 : s.rPrfFree 0 = false) : s.AllocatesFree i ↔ s.BankReady i := by
  refine ⟨fun h hs ha hd => ?_, allocatesFree h0⟩
  by_contra hf
  refine (h.1 ?_ hd).2 (nPrfEntry_of_full (Bool.not_eq_false _ |>.mp hf))
  rw [ctl_tAlloc]
  rcases hs with hs | hs <;> simp only [hs, ha]

/-! ### One cycle -/

theorem robEntryOf_ok {u : Uop} {b : Bool} {p q : PrfPtr} (hu : u.DstOk)
    (hp : b = true → u.dstValid = true → p ≠ 0) (hq : b = true → u.dstValid = true → q ≠ 0) :
    EntryOk (robEntryOf u b p q) := by
  intro hv
  have hv' : (b && u.dstValid) = true := hv
  obtain ⟨hb, hd⟩ := Bool.and_eq_true _ _ |>.mp hv'
  simp only [robEntryOf, hv', if_true]
  exact ⟨archReg_ne_zero hu hd, hp hb hd, hq hb hd⟩

theorem entryOk_nRob {p : RobPtr} (h1 : (s.ctl i).tAlloc = true → p = idx s.rRobTailPtr →
      EntryOk (s.tRobTail i))
    (h2 : (s.ctl i).tAllocTwo = true → p = idx s.rRobNextTailPtr → EntryOk (s.tRobNextTail i))
    (h : ¬((s.ctl i).tAlloc = true ∧ p = idx s.rRobTailPtr) →
      ¬((s.ctl i).tAllocTwo = true ∧ p = idx s.rRobNextTailPtr) → EntryOk (s.rRob p)) :
    EntryOk (s.nRob i p) := by
  by_cases hs : s.rState = .rat
  · have hc : (s.ctl i).tClrRob = true := by rw [ctl_tClrRob, decide_eq_true hs]
    have ha : (s.ctl i).tAlloc = false := by rw [ctl_tAlloc, hs]
    have ha2 : (s.ctl i).tAllocTwo = false := by rw [ctl_tAllocTwo, hs]
    simp only [nRob, hc, if_true]
    exact h (by simp [ha]) (by simp [ha2])
  · have hst : Stable EntryOk := ⟨fun _ _ => rfl, fun _ _ => rfl⟩
    have he : EntryOk (s.nRob i p) = _ := congrFun (hst.nRob (i := i) hs) p
    rw [he, writeIf_apply, writeIf_apply]
    split_ifs with ha2 ha
    · exact h2 ha2.1 ha2.2
    · exact h1 ha.1 ha.2
    · exact h ha ha2

theorem rRobComplete_used {o : RobPtr → Bool} (h : s.ZeroInv o) {p : RobPtr}
    (hc : s.rRobComplete p = true) : o p = true := by
  by_contra ho
  rw [h.unused p (Bool.not_eq_true _ |>.mp ho)] at hc
  cases hc

theorem tFreeReg_ok {o : RobPtr → Bool} (h : s.ZeroInv o) (hf : s.tFreeReg i = true) :
    s.tRobHead.ldst ≠ 0 ∧ s.tRobHead.pdst ≠ 0 ∧ s.tRobHead.oldPdst ≠ 0 := by
  obtain ⟨hr, hv⟩ := Bool.and_eq_true _ _ |>.mp hf
  have hc : s.tRobHeadComplete = true := by
    rw [ctl_tRetire] at hr
    cases hs : s.rState <;> simp only [hs] at hr <;>
      first | exact absurd hr Bool.false_ne_true | skip
    · rw [activeCtl_tRetire] at hr
      simp only [tCanRetireRobHead, Bool.and_eq_true] at hr
      exact hr.1.2.1
    · exact (Bool.and_eq_true _ _ |>.mp hr).1
  exact h.slot _ (rRobComplete_used h (Bool.and_eq_true _ _ |>.mp hc).2) hv

theorem tFreeRegTwo_ok {o : RobPtr → Bool} (h : s.ZeroInv o) (hf : s.tFreeRegTwo i = true) :
    s.tRobNextHead.ldst ≠ 0 ∧ s.tRobNextHead.pdst ≠ 0 ∧ s.tRobNextHead.oldPdst ≠ 0 := by
  simp only [tFreeRegTwo, Bool.and_eq_true] at hf
  obtain ⟨-, hr, hv⟩ := hf
  have hc : s.tRobNextHeadComplete = true := by
    rw [ctl_tRetireTwo] at hr
    cases hs : s.rState <;> simp only [hs] at hr <;>
      first | exact absurd hr Bool.false_ne_true | skip
    rw [activeCtl_tRetireTwo] at hr
    simp only [Bool.and_eq_true] at hr
    exact hr.2.1.1.1.2
  exact h.slot _ (rRobComplete_used h (Bool.and_eq_true _ _ |>.mp hc).2) hv

theorem initRat_ne_zero : ∀ a : ArchReg, a ≠ 0 → initRat a ≠ 0 := by decide

theorem init_zeroInv (rob : RobPtr → RobEntry) (bob : BitVec 2 → BobEntry)
    (dq : BitVec 2 → Uop) : (init rob bob dq).ZeroInv fun _ => false where
  dqPtrs := (init_ptrs rob bob dq).toDqPtrs
  dqOk := (init_renameInv rob bob dq).dqOk
  prfFree := rfl
  retirePrfFree := rfl
  allocRat := initRat_ne_zero
  retireRat := initRat_ne_zero
  slot := fun _ h => absurd h Bool.false_ne_true
  unused := fun _ _ => rfl

/-- The previous mappings recorded at allocation are not register 0. -/
theorem tRobNextTail_ok {o : RobPtr → Bool} (h : s.ZeroInv o) (ha : s.AllocatesFree i)
    (h2 : (s.ctl i).tAllocTwo = true) : EntryOk (s.tRobNextTail i) := by
  have h1 := (tAllocTwo_tAlloc h2).1
  refine robEntryOf_ok (h.dqOk _ (tUop2_mem h.dqPtrs h2)) (fun hb hd => (ha.2 hb hd).2)
    fun hb hd => ?_
  have hne := archReg_ne_zero (h.dqOk _ (tUop2_mem h.dqPtrs h2)) hd
  split_ifs with he
  · obtain ⟨hd1, -⟩ := Bool.and_eq_true _ _ |>.mp he
    have hp : (s.tRobTail i).pdst = s.nPrfEntry := by simp [tRobTail, robEntryOf, h1, hd1]
    exact hp ▸ (ha.1 h1 hd1).2
  · exact h.allocRat _ hne

theorem tRobTail_ok {o : RobPtr → Bool} (h : s.ZeroInv o) (ha : s.AllocatesFree i)
    (h1 : (s.ctl i).tAlloc = true) : EntryOk (s.tRobTail i) :=
  have hok := h.dqOk _ (tUop_mem h1)
  robEntryOf_ok hok (fun hb hd => (ha.1 hb hd).2) fun _ hd =>
    h.allocRat _ (archReg_ne_zero hok hd)

theorem ZeroInv.step {o : RobPtr → Bool} (h : s.ZeroInv o) (ho : ReportsAllocated o i)
    (hb : s.BankReady i) : (s.step i).ZeroInv (everAllocated o s i) := by
  have ha := allocatesFree h.prfFree hb
  have hret : (s.step i).rRetirePrfFree 0 = false :=
    writeIf_eq (writeIf_eq (writeIf_eq (writeIf_eq h.retirePrfFree fun _ _ => rfl)
      fun hf he => absurd he.symm (tFreeReg_ok h hf).2.2) fun _ _ => rfl)
      fun hf he => absurd he.symm (tFreeRegTwo_ok h hf).2.2
  have hrr : ∀ a, a ≠ 0 → (s.step i).rRetireRat a ≠ 0 := fun a hne =>
    writeIf_ne (writeIf_ne (h.retireRat a hne) fun hf => (tFreeReg_ok h hf).2.1)
      fun hf => (tFreeRegTwo_ok h hf).2.1
  have hrat : ∀ a, a ≠ 0 → s.nAllocRat i a ≠ 0 := fun a hne =>
    writeIf_ne (writeIf_ne (h.allocRat a hne) fun hc =>
        (ha.1 (Bool.and_eq_true _ _ |>.mp hc).1 (Bool.and_eq_true _ _ |>.mp hc).2).2)
      fun hc => (ha.2 (Bool.and_eq_true _ _ |>.mp hc).1 (Bool.and_eq_true _ _ |>.mp hc).2).2
  have hfree : s.nPrfFree i 0 = false :=
    writeIf_eq (writeIf_eq (writeIf_eq (writeIf_eq h.prfFree fun _ _ => rfl) fun _ _ => rfl)
      fun hf he => absurd he.symm (tFreeReg_ok h hf).2.2)
      fun hf he => absurd he.symm (tFreeRegTwo_ok h hf).2.2
  refine ⟨h.dqPtrs.step, h.dqOk.step h.dqPtrs, ?_, hret, ?_, hrr, ?_, ?_⟩
  · change (if (s.ctl i).tRatCopy then s.rRetirePrfFree else s.nPrfFree i) 0 = false
    split_ifs
    · exact h.retirePrfFree
    · exact hfree
  · change ∀ a, a ≠ 0 → (if (s.ctl i).tRatCopy then s.rRetireRat else s.nAllocRat i) a ≠ 0
    split_ifs
    · exact h.retireRat
    · exact hrat
  · intro p hp
    refine entryOk_nRob (fun h1 _ => tRobTail_ok h ha h1) (fun h2 _ => tRobNextTail_ok h ha h2)
      fun hn1 hn2 => h.slot p ?_
    rw [everAllocated, writeIf_apply, if_neg hn2, writeIf_apply, if_neg hn1] at hp
    exact hp
  · intro p hp
    rw [everAllocated, writeIf_apply, writeIf_apply] at hp
    split_ifs at hp with hn2 hn1
    have hother : ∀ q, o q = true → q ≠ p := fun q hq he => by
      rw [he, hp] at hq
      cases hq
    change s.nRobComplete i p = false
    unfold nRobComplete
    split_ifs
    · rfl
    · refine writeIf_eq (writeIf_eq (writeIf_eq (writeIf_eq (writeIf_eq (h.unused p hp) ?_) ?_)
        ?_) ?_) ?_
      · exact fun h1 he => absurd ⟨h1, he⟩ hn1
      · exact fun h2 he => absurd ⟨h2, he⟩ hn2
      · exact fun hc he => absurd he.symm (hother _ (ho.complete1 hc))
      · exact fun hc he => absurd he.symm (hother _ (ho.complete2 hc))
      · exact fun hc he => absurd he.symm (hother _ (ho.mem hc))

/-- The cycles of a run that keeps to its banks. -/
def BankRun (t : Core × (RobPtr → Bool)) (i : CoreIn) : Prop :=
  ReportsAllocated t.2 i ∧ t.1.BankReady i

theorem reach_zeroInv {t : Core × (RobPtr → Bool)} (h : allocMachine.Reach BankRun t) :
    t.1.ZeroInv t.2 := by
  refine h.invariant (P := fun t => t.1.ZeroInv t.2) ?_ fun _ _ h hb => h.step hb.1 hb.2
  rintro t ⟨⟨rob, bob, dq, he⟩, ho⟩
  rw [he, ho]
  exact init_zeroInv rob bob dq

/-- **Only free registers are handed out**, through all states of the machine, as long as the
serializing uops find a register in their bank; and a cycle hands out a register that is not
free, register 0 then, exactly when one does not. -/
theorem alloc_free_iff {t : Core × (RobPtr → Bool)} (h : allocMachine.Reach BankRun t)
    (i : CoreIn) : t.1.rPrfFree 0 = false ∧ (t.1.AllocatesFree i ↔ t.1.BankReady i) :=
  have h0 := (reach_zeroInv h).prfFree
  ⟨h0, allocatesFree_iff h0⟩

instance (o : RobPtr → Bool) (i : CoreIn) : Decidable (ReportsAllocated o i) :=
  decidable_of_iff
    ((i.tCompleteValid1 = true → o i.tCompleteBundle1.robPtr = true) ∧
      (i.tCompleteValid2 = true → o i.tCompleteBundle2.robPtr = true) ∧
      (i.coreMemRspValid = true → o i.coreMemRsp.robPtr = true))
    ⟨fun ⟨h1, h2, h3⟩ => ⟨h1, h2, h3⟩, fun ⟨h1, h2, h3⟩ => ⟨h1, h2, h3⟩⟩

instance : Decidable (s.BankReady i) := by
  unfold BankReady
  infer_instance

instance : Decidable (s.AllocatesFree i) := by
  unfold AllocatesFree
  infer_instance

instance (t : Core × (RobPtr → Bool)) : Decidable (BankRun t i) := by
  unfold BankRun
  infer_instance

theorem alloc_free_iff_addi :
    let t := allocMachine.run (zeroed, fun _ => false) addiInputs
    t.1.AllocatesFree CoreIn.idle ↔ t.1.BankReady CoreIn.idle :=
  have h0 : allocMachine.reset (zeroed, fun _ => false) := ⟨⟨_, _, _, rfl⟩, rfl⟩
  (alloc_free_iff (.run (.reset h0) (by decide +kernel)) CoreIn.idle).2

/-! ### A bank that runs out -/

/-- `addi x1, x0, 1`, `addi x3, x0, 1` up to `addi x31, x0, 1`, offered every second cycle and
completed five cycles later, so that every odd architectural register moves to an even
physical one; then `rdinstret x2`. -/
def oddInputs : List CoreIn :=
  bootInputs ++ CoreIn.idle ::
    ((List.range 16).flatMap fun k =>
      [CoreIn.fetch (BitVec.ofNat 32 (4 * k)) (BitVec.ofNat 32 (0x00100093 + 0x100 * k)),
       if 3 ≤ k then CoreIn.complete (BitVec.ofNat 5 (k - 3)) else CoreIn.idle]) ++
    [CoreIn.idle, CoreIn.complete 13, CoreIn.complete 14, CoreIn.complete 15, CoreIn.idle,
     CoreIn.fetch 0x40 0xc0202173, CoreIn.idle]

/-- After this run the even bank is exhausted and `rdinstret x2` is given register 0. -/
theorem alloc_not_free :
    ¬∀ s, coreMachine.Reach AnswersInflight s → ∀ i, s.AllocatesFree i := fun h =>
  absurd (h (coreMachine.run zeroed oddInputs) (.run reach_zeroed (by decide +kernel)) CoreIn.idle)
    (by decide +kernel)

end Core
end Rv32Core
