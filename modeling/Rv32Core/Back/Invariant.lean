import Rv32Core.Back.Tokens

/-! # The tokens of a run

The invariant of the composed machine.  Every token is the slot of an entry of the ROB and is in
flight for the core, and the other way round, until the second cycle of a drain.  From then on the
queues of the execution unit are empty and the multiplier and the divider keep their bits, and once
the data cache reports that nothing is left there, all tokens that remain keep theirs; so none is
left when the drain ends.

What it needs of a run is that nothing is in flight when a faulting instruction is dropped, and
that the uop of a monitor call is allocated. -/

namespace Rv32Core

open Clocked RingBuffer

namespace Back

variable {s : Back} {i : BackIn} {env : Back → BackIn → Prop}

/-- The second and later cycles of a drain. -/
def Flushed (s : Back) : Prop := s.core.rState = .drain ∧ s.core.drainDsComplete = true

/-- Where the tokens are. -/
structure TokensInv (s : Back) : Prop where
  nodup : s.inFlight.Nodup
  exact : ¬s.Flushed → ∀ p, p ∈ s.inFlight ↔ s.core.rRobInflight p = true
  queues : s.Flushed → s.exec.intSlots = 0 ∧ s.exec.memSlots = 0 ∧ s.exec.rMemReady = false
  units : s.Flushed → ∀ p ∈ s.exec.unitSlots, s.core.rRobInflight p = true
  empty : s.core.rState = .drain → s.l1d.memqEmpty = true → s.Flushed ∧ s.exec.sentSlots = 0 ∧
    s.cacheSlots = 0 ∧ ∀ p ∈ s.exec.reports, s.core.rRobInflight p = true
  unitWait : ∀ p ∈ s.exec.unitSlots, s.exec.rUqWait p = false ∧ s.exec.rMqWait p = false
  memWait : ¬Core.Drains s.core.rState → ∀ p, s.exec.rMqWait p = true → p ∈ s.exec.memSlots
  fresh : s.core.drainDsComplete = true → Core.Drains s.core.rState ∨
    Core.Halted s.core.rState ∨ (s.core.rState = .active ∧ s.core.robCount = 0)
  counts : s.l1d.Counts

/-- The invariant of the composed machine. -/
structure Inv (s : Back) : Prop where
  occ : s.core.Occupied
  flush : s.FlushInv
  tokens : s.TokensInv

/-! ### Parts of the tokens -/

theorem intSlots_le : s.exec.intSlots ≤ s.inFlight := by
  unfold inFlight Exec.inFlight
  simp only [add_assoc]
  exact Multiset.le_add_right _ _

theorem memSlots_le : s.exec.memSlots ≤ s.inFlight := by
  rw [inFlight, Exec.inFlight, add_comm s.exec.intSlots]
  simp only [add_assoc]
  exact Multiset.le_add_right _ _

theorem unitSlots_le : s.exec.unitSlots ≤ s.inFlight := by
  rw [inFlight, Exec.inFlight, add_comm (s.exec.intSlots + s.exec.memSlots)]
  simp only [add_assoc]
  exact Multiset.le_add_right _ _

theorem reports_le : s.exec.reports ≤ s.inFlight := by
  rw [inFlight, Exec.inFlight, add_comm _ s.exec.reports]
  simp only [add_assoc]
  exact Multiset.le_add_right _ _

theorem cacheSlots_le : s.cacheSlots ≤ s.inFlight := Multiset.le_add_left _ _

theorem TokensInv.int_not_mem (h : s.TokensInv) {p : RobPtr} (hp : p ∈ s.exec.intSlots) :
    p ∉ s.exec.memSlots := by
  have hle : s.exec.intSlots + s.exec.memSlots ≤ s.inFlight := by
    unfold inFlight Exec.inFlight
    simp only [add_assoc]
    rw [← add_assoc]
    exact Multiset.le_add_right _ _
  have hn := Multiset.nodup_of_le hle h.nodup
  exact Multiset.disjoint_left.mp (Multiset.nodup_add.mp hn).2.2 hp

theorem TokensInv.not_flushed (hd : s.core.rDsDone = false) (hds : s.core.DsInv) : ¬s.Flushed :=
  fun hf => by
    rw [hds.drains (.inl hf.1)] at hd
    cases hd

theorem TokensInv.inFlight_zero (h : s.TokensInv) (hf : ¬s.Flushed)
    (h0 : ∀ p, s.core.rRobInflight p = false) : s.inFlight = 0 := by
  refine Multiset.eq_zero_of_forall_notMem fun p hp => ?_
  rw [h.exact hf, h0] at hp
  cases hp

theorem pending_zero (h : s.inFlight = 0) : s.l1d.pending = 0 := by
  have hc : s.cacheSlots = 0 := Multiset.le_zero.mp (h ▸ cacheSlots_le)
  exact Multiset.map_eq_zero.mp hc

/-! ### The promises of the parts to each other -/

/-- What a cycle needs of the run. -/
structure Calm (s : Back) (i : BackIn) : Prop where
  quiet : s.core.rState = .writeCause → ∀ p, s.core.rRobInflight p = false
  monitor : s.core.rState = .allocForMonitor → (s.coreCtl i).tAlloc = true

/-- While the core waits for a flush of the data cache, nothing is in flight. -/
theorem Inv.awaits_zero (h : s.Inv)
    (hq : s.core.rState = .writeCause → ∀ p, s.core.rRobInflight p = false)
    (ha : Core.awaitsFlush s.core.rState = true) (he : s.core.rState ≠ .writeEpc) :
    s.inFlight = 0 := by
  have hd : ¬s.Flushed := fun hf => by
    rw [hf.1] at ha
    cases ha
  refine h.tokens.inFlight_zero hd fun p => ?_
  cases hs : s.core.rState <;> rw [hs] at ha <;> try cases ha
  case monitorFlushCache =>
    by_contra hf
    rw [Bool.not_eq_false] at hf
    have h0 := h.occ.none (by rw [hs]; simp [Core.Serial])
    exact Core.not_inRob_of_zero h0 p (h.occ.inflight.inRob p hf)
  case flushForHalt => exact h.occ.still (by rw [hs]; simp [Core.Halted]) p
  case writeEpc => exact absurd hs he
  case writeCause => exact hq hs p

theorem Inv.noFlushRace (h : s.Inv) (hr : s.l1d.ReqInv)
    (hq : s.core.rState = .writeCause → ∀ p, s.core.rRobInflight p = false) :
    s.l1d.NoFlushRace :=
  h.flush.noFlushRace hr fun hf =>
    pending_zero (h.awaits_zero hq (h.flush.awaits hf).1 (h.flush.awaits hf).2)

theorem Inv.answers (h : s.Inv) (hre : backMachine.Reach env s) (hr : s.l1d.NoFlushRace) :
    s.core.AnswersInflight (s.coreIn i) := by
  intro hd
  have hf := TokensInv.not_flushed hd h.occ.ds
  have hin : ∀ p ∈ Core.reportedOn (s.coreIn i), s.core.rRobInflight p = true := fun p hp =>
    (h.tokens.exact hf p).mp (reportedOn_mem hre hr hp)
  simp only [Core.mem_reportedOn] at hin
  exact ⟨fun hv => hin _ (.inl ⟨hv, rfl⟩), fun hv => hin _ (.inr (.inl ⟨hv, rfl⟩)),
    fun hv => hin _ (.inr (.inr ⟨hv, rfl⟩))⟩

/-! ### One cycle -/

theorem uqWait_step {p : RobPtr} (h : (s.step i).exec.rUqWait p = true) :
    (s.exec.rUqWait p = true ∨ p ∈ Exec.pushedIn (s.execIn i)) ∧
      ¬(s.exec.rStartInt = true ∧ p = s.exec.intUop.robPtr) :=
  (Exec.wait_step (fun hp => (polite.pushTwo hp).1) h).imp_left fun h =>
    h.imp_right fun hp => Multiset.mem_add.mpr (.inl hp)

theorem mqWait_step {p : RobPtr} (h : (s.step i).exec.rMqWait p = true) :
    (s.exec.rMqWait p = true ∨ p ∈ Exec.pushedSlots Uop.isMem (s.execIn i)) ∧
      ¬(s.exec.tPopMemUq (s.execIn i) = true ∧ p = s.exec.tMemUq.robPtr) :=
  Exec.wait_step (fun hp => (polite.pushTwo hp).1) h

/-! ### A cycle without a drain -/

/-- The tokens in the ROB, those sent off and those reported on, while the core does not drain. -/
structure Moves (s : Back) (i : BackIn) : Prop where
  move : (s.step i).inFlight + Core.reportedOn (s.coreIn i) =
    s.inFlight + s.core.sentOff (s.coreIn i)
  inRob : ∀ p ∈ s.inFlight, s.core.InRob p
  fresh : ∀ p ∈ s.inFlight, p ∉ Exec.pushedIn (s.execIn i)
  sent : ∀ p ∈ s.core.sentOff (s.coreIn i), p ∉ s.inFlight
  nodup : (s.inFlight + s.core.sentOff (s.coreIn i)).Nodup
  reported : ∀ p ∈ Core.reportedOn (s.coreIn i), p ∈ s.inFlight

theorem Inv.moves (h : s.Inv) (hre : backMachine.Reach env s) (hr : s.l1d.NoFlushRace)
    (hd : s.core.rDsDone = false) : s.Moves i := by
  have hf := TokensInv.not_flushed hd h.occ.ds
  have hdec := Core.dqDecoded_of_reach (reach_core hre)
  obtain ⟨hsn, hfresh⟩ := Core.sentOff_fresh (i := s.coreIn i) h.occ.ptrs
  have hpush := pushedIn_eq (i := i) hdec.2 hdec.1
  have hinRob : ∀ p ∈ s.inFlight, s.core.InRob p := fun p hp =>
    h.occ.inflight.inRob p ((h.tokens.exact hf p).mp hp)
  refine ⟨inFlight_step hre hr hd, hinRob, fun p hp hm => hfresh p (hpush ▸ hm) (hinRob p hp),
    fun p hm hp => hfresh p hm (hinRob p hp), ?_, fun p hp => reportedOn_mem hre hr hp⟩
  exact Multiset.nodup_add.mpr ⟨h.tokens.nodup, hsn,
    Multiset.disjoint_left.mpr fun hp hm => hfresh _ hm (hinRob _ hp)⟩

theorem Moves.nodup_step (h : s.Moves i) : (s.step i).inFlight.Nodup := by
  have hn := h.nodup
  rw [← h.move] at hn
  exact (Multiset.nodup_add.mp hn).1

theorem Moves.mem_step (h : s.Moves i) (p : RobPtr) : p ∈ (s.step i).inFlight ↔
    (p ∈ s.inFlight ∧ p ∉ Core.reportedOn (s.coreIn i)) ∨ p ∈ s.core.sentOff (s.coreIn i) := by
  have hn := h.nodup
  rw [← h.move] at hn
  have hdis := (Multiset.nodup_add.mp hn).2.2
  have hmem : p ∈ (s.step i).inFlight + Core.reportedOn (s.coreIn i) ↔
      p ∈ s.inFlight + s.core.sentOff (s.coreIn i) := by rw [h.move]
  rw [Multiset.mem_add, Multiset.mem_add] at hmem
  constructor
  · intro hp
    rcases hmem.mp (.inl hp) with hin | hs
    · exact .inl ⟨hin, Multiset.disjoint_left.mp hdis hp⟩
    · exact .inr hs
  · rintro (⟨hp, hno⟩ | hs)
    · exact (hmem.mpr (.inl hp)).resolve_right hno
    · exact (hmem.mpr (.inr hs)).resolve_right fun hrep => h.sent p hs (h.reported p hrep)

theorem Inv.unitWait_step (h : s.Inv) (hre : backMachine.Reach env s) (hm : s.Moves i)
    (hd : ¬Core.Drains s.core.rState) : ∀ p ∈ (s.step i).exec.unitSlots,
      (s.step i).exec.rUqWait p = false ∧ (s.step i).exec.rMqWait p = false := by
  intro p hp
  have hwas : p ∈ s.exec.unitSlots ∨ s.exec.rStartInt = true ∧ s.exec.intUop.robPtr = p :=
    ((Exec.portInv_of_reach (reach_exec hre)).mem_units_step hp).imp_right fun hx => ⟨hx.1, hx.2.2⟩
  have hin : p ∈ s.inFlight := by
    rcases hwas with hu | ⟨hst, rfl⟩
    · exact Multiset.mem_of_le unitSlots_le hu
    · exact Multiset.mem_of_le intSlots_le (Exec.start_mem_intSlots hst)
  have hno := hm.fresh p hin
  constructor
  · by_contra hw
    rw [Bool.not_eq_false] at hw
    obtain ⟨hw, hns⟩ := uqWait_step hw
    rcases hwas with hu | ⟨hst, rfl⟩
    · rw [(h.tokens.unitWait p hu).1] at hw
      exact hno (hw.resolve_left Bool.false_ne_true)
    · exact hns ⟨hst, rfl⟩
  · by_contra hw
    rw [Bool.not_eq_false] at hw
    rcases (mqWait_step hw).1 with hw | hw
    · rcases hwas with hu | ⟨hst, rfl⟩
      · rw [(h.tokens.unitWait p hu).2] at hw
        cases hw
      · exact h.tokens.int_not_mem (Exec.start_mem_intSlots hst) (h.tokens.memWait hd _ hw)
    · exact hno (Multiset.mem_add.mpr (.inr hw))

/-- A drain does not begin in the cycle after a drain. -/
theorem TokensInv.not_drain (h : s.TokensInv) (hnd : ¬Core.Drains s.core.rState)
    (hdd : s.core.drainDsComplete = true) : (s.coreCtl i).nState ≠ .drain := by
  intro hs
  rcases Core.ctl_drain hs with hx | ⟨hx, he⟩
  · exact hnd (.inl hx)
  · rcases h.fresh hdd with hy | hy | ⟨-, h0⟩
    · exact hnd hy
    · rw [hx] at hy
      rcases hy with hy | hy | hy <;> cases hy
    · rw [Core.robCount_eq_zero.mp h0] at he
      cases he

theorem Inv.tokens_low (h : s.Inv) (hre : backMachine.Reach env s) (hr : s.l1d.NoFlushRace)
    (hd : s.core.rDsDone = false) : (s.step i).TokensInv := by
  have hf := TokensInv.not_flushed hd h.occ.ds
  have hreq := L1d.reach_reqInv (reach_l1d hre)
  have hm := h.moves (i := i) hre hr hd
  have hnd : ¬Core.Drains s.core.rState := fun hs => by
    rw [h.occ.ds.drains hs] at hd
    cases hd
  have hdone : (s.step i).core.drainDsComplete = false := hd
  have hnf : ¬(s.step i).Flushed := fun hx => by
    rw [hx.2] at hdone
    cases hdone
  refine ⟨hm.nodup_step, fun _ p => ?_, fun hx => absurd hx hnf, fun hx => absurd hx hnf, ?_,
    h.unitWait_step hre hm hnd, fun _ p hw => ?_, fun hx => ?_, h.tokens.counts.step hreq hr⟩
  · have hst : (s.step i).core.rRobInflight p = (s.core.step (s.coreIn i)).rRobInflight p := rfl
    rw [hst, Core.inflight_low hd, ← h.tokens.exact hf]
    exact hm.mem_step p
  · intro hs he
    have hdd := (h.tokens.counts.memqEmpty hreq hr he).1
    exact absurd hs (h.tokens.not_drain hnd hdd)
  · obtain ⟨hw, hnp⟩ := mqWait_step hw
    obtain ⟨l, hl⟩ := (reach_exec hre).exists_observed Exec.emptyLog Exec.watchQueues
    have hmem := (Exec.queuesInv_of_reach hl).memSlots_step (i := s.execIn i) polite hd
    have hin : p ∈ s.exec.memSlots + Exec.pushedSlots Uop.isMem (s.execIn i) :=
      Multiset.mem_add.mpr (hw.imp_left (h.tokens.memWait hnd p))
    rw [← hmem, Multiset.mem_add, Exec.mem_token] at hin
    exact hin.resolve_right fun hx => hnp ⟨hx.1, hx.2.symm⟩
  · rw [hdone] at hx
    cases hx

/-! ### A cycle of a drain -/

theorem Inv.pushedIn_zero (h : s.Inv) (hre : backMachine.Reach env s)
    (hd : s.core.rDsDone = true) : Exec.pushedIn (s.execIn i) = 0 := by
  have hdec := Core.dqDecoded_of_reach (reach_core hre)
  have ha : (s.coreCtl i).tAlloc = false := Bool.eq_false_iff.mpr fun ha => by
    rw [h.occ.ds.of_alloc ha] at hd
    cases hd
  rw [pushedIn_eq hdec.2 hdec.1]
  refine Multiset.eq_zero_of_forall_notMem fun p hp => ?_
  rcases Core.mem_sentOff.mp hp with ⟨hp, -⟩ | ⟨hp, -⟩
  · have hx : (s.coreCtl i).tAlloc = true := Core.tPush_alloc.1 hp
    rw [ha] at hx
    cases hx
  · have hx : (s.coreCtl i).tAlloc = true := (Core.tAllocTwo_tAlloc (Core.tPush_alloc.2 hp)).1
    rw [ha] at hx
    cases hx

theorem Inv.waits_le (h : s.Inv) (hre : backMachine.Reach env s) (hd : s.core.rDsDone = true)
    (p : RobPtr) : ((s.step i).exec.rUqWait p = true → s.exec.rUqWait p = true) ∧
      ((s.step i).exec.rMqWait p = true → s.exec.rMqWait p = true) := by
  have h0 := h.pushedIn_zero (i := i) hre hd
  have hno : ∀ p, p ∉ Exec.pushedIn (s.execIn i) := fun p hp => by
    rw [h0] at hp
    exact Multiset.notMem_zero p hp
  exact ⟨fun hw => (uqWait_step hw).1.resolve_right (hno p),
    fun hw => (mqWait_step hw).1.resolve_right fun hx => hno p (Multiset.mem_add.mpr (.inr hx))⟩

theorem Inv.units_high (h : s.Inv) (hre : backMachine.Reach env s) (hd : s.core.rDsDone = true)
    {p : RobPtr} (hp : p ∈ (s.step i).exec.unitSlots) : p ∈ s.exec.unitSlots ∧
      (s.step i).exec.rUqWait p = false ∧ (s.step i).exec.rMqWait p = false := by
  have hwas := (Exec.portInv_of_reach (reach_exec hre)).mem_units_step hp
  have hu : p ∈ s.exec.unitSlots := hwas.resolve_right fun hx => by
    have hds : s.core.rDsDone = false := hx.2.1
    rw [hd] at hds
    cases hds
  obtain ⟨hw1, hw2⟩ := h.tokens.unitWait p hu
  obtain ⟨hle1, hle2⟩ := h.waits_le (i := i) hre hd p
  refine ⟨hu, Bool.eq_false_iff.mpr fun hx => ?_, Bool.eq_false_iff.mpr fun hx => ?_⟩
  · rw [hle1 hx] at hw1
    cases hw1
  · rw [hle2 hx] at hw2
    cases hw2

theorem TokensInv.units_inflight (h : s.TokensInv) {p : RobPtr} (hp : p ∈ s.exec.unitSlots) :
    s.core.rRobInflight p = true := by
  by_cases hf : s.Flushed
  · exact h.units hf p hp
  · exact (h.exact hf p).mp (Multiset.mem_of_le unitSlots_le hp)

/-- A token of these that stays one stays in flight. -/
theorem Inv.units_stay (h : s.Inv) (hre : backMachine.Reach env s) (hr : s.l1d.NoFlushRace)
    (hd : s.core.rDsDone = true) {p : RobPtr} (hp : p ∈ s.exec.unitSlots)
    (hp' : p ∈ (s.step i).inFlight) : (s.step i).core.rRobInflight p = true := by
  have hle := inFlight_drain (i := i) hre hr hd
  have hn := Multiset.nodup_of_le hle h.tokens.nodup
  have hrep : p ∉ Core.reportedOn (s.coreIn i) :=
    Multiset.disjoint_left.mp (Multiset.nodup_add.mp hn).2.2 hp'
  obtain ⟨hu, hm⟩ := h.tokens.unitWait p hp
  exact (Core.inflight_high (s := s.core) (i := s.coreIn i) hd p).mpr
    ⟨h.tokens.units_inflight hp, hrep, hu, hm⟩

theorem TokensInv.drained (h : s.TokensInv) (hs : s.core.rState = .drain)
    (h0 : ∀ p, s.core.rRobInflight p = false) (he : s.l1d.memqEmpty = true) : s.inFlight = 0 := by
  obtain ⟨hf, hsent, hcache, hrep⟩ := h.empty hs he
  obtain ⟨hint, hmem, -⟩ := h.queues hf
  have hunit : s.exec.unitSlots = 0 := Multiset.eq_zero_of_forall_notMem fun p hp => by
    have hx := h.units hf p hp
    rw [h0] at hx
    cases hx
  have hrep0 : s.exec.reports = 0 := Multiset.eq_zero_of_forall_notMem fun p hp => by
    have hx := hrep p hp
    rw [h0] at hx
    cases hx
  rw [inFlight, Exec.inFlight, hint, hmem, hunit, hrep0, hsent, hcache]
  rfl

/-- Without tokens a cycle with `ds_done` makes up none. -/
theorem inFlight_none (hre : backMachine.Reach env s) (hr : s.l1d.NoFlushRace)
    (hd : s.core.rDsDone = true) (h0 : s.inFlight = 0) : (s.step i).inFlight = 0 := by
  have hle := inFlight_drain (i := i) hre hr hd
  rw [h0] at hle
  have hsum := congrArg Multiset.card (Multiset.le_zero.mp hle)
  rw [Multiset.card_add, Multiset.card_zero] at hsum
  exact Multiset.card_eq_zero.mp (by omega)

theorem TokensInv.of_zero (h0 : s.inFlight = 0) (hi : ∀ p, s.core.rRobInflight p = false)
    (hs : s.core.rState ≠ .drain)
    (hw : ¬Core.Drains s.core.rState → ∀ p, s.exec.rMqWait p = false)
    (hfresh : s.core.drainDsComplete = true → Core.Drains s.core.rState ∨
      Core.Halted s.core.rState ∨ (s.core.rState = .active ∧ s.core.robCount = 0))
    (hc : s.l1d.Counts) : s.TokensInv where
  nodup := by
    rw [h0]
    exact Multiset.nodup_zero
  exact _ p := by
    rw [h0, hi]
    simp
  queues hf := absurd hf.1 hs
  units hf := absurd hf.1 hs
  empty hd := absurd hd hs
  unitWait p hp := by
    have hin := Multiset.mem_of_le unitSlots_le hp
    rw [h0] at hin
    exact absurd hin (Multiset.notMem_zero p)
  memWait hd p hp := by
    rw [hw hd p] at hp
    cases hp
  fresh := hfresh
  counts := hc

theorem Inv.tokens_drain (h : s.Inv) (hre : backMachine.Reach env s) (hr : s.l1d.NoFlushRace)
    (hs : s.core.rState = .drain) (hs' : (s.step i).core.rState = .drain) :
    (s.step i).TokensInv := by
  have hd : s.core.rDsDone = true := h.occ.ds.drains (.inl hs)
  have hreq := L1d.reach_reqInv (reach_l1d hre)
  have hflushed : (s.step i).Flushed := ⟨hs', hd⟩
  obtain ⟨hint, hmem⟩ := Exec.slots_flushed (s := s.exec) (i := s.execIn i) hd
  have hpop : s.exec.tPopMemUq (s.execIn i) = false := by
    have hds : (s.execIn i).dsDone = true := hd
    rw [Exec.tPopMemUq, hds, Bool.not_true, Bool.and_false]
  refine ⟨?_, fun hx => absurd hflushed hx, fun _ => ⟨hint, hmem, hpop⟩, fun _ p hp => ?_,
    fun _ he => ?_, fun p hp => (h.units_high hre hd hp).2,
    fun hx => absurd (.inl hs') hx, fun _ => .inl (.inl hs'), h.tokens.counts.step hreq hr⟩
  · have hle := inFlight_drain (i := i) hre hr hd
    exact (Multiset.nodup_add.mp (Multiset.nodup_of_le hle h.tokens.nodup)).1
  · exact h.units_stay hre hr hd (h.units_high hre hd hp).1 (Multiset.mem_of_le unitSlots_le hp)
  · -- the request queue was empty and the data cache owed nothing a cycle ago
    obtain ⟨hdd, hv, -, hpend⟩ := h.tokens.counts.memqEmpty hreq hr he
    obtain ⟨hint0, hmem0, hready⟩ := h.tokens.queues ⟨hs, hdd⟩
    obtain ⟨l, hl⟩ := (reach_exec hre).exists_observed Exec.emptyLog Exec.watchQueues
    have hq := Exec.queuesInv_of_reach hl
    have hsent := hq.sentSlots_step (i := s.execIn i) polite
    have hempty : s.exec.rMemQ.view = [] := by
      have hv' : (!s.exec.rMemQ.empty) = false := hv
      rw [Bool.not_eq_false'] at hv'
      exact ExecQueue.view_of_empty hv'
    have h0 : s.exec.sentSlots = 0 := by
      rw [Exec.sentSlots, hready, hempty]
      rfl
    rw [h0, hpop, single_false, add_zero] at hsent
    have hsent0 : (s.exec.step (s.execIn i)).sentSlots = 0 :=
      Multiset.le_zero.mp (hsent ▸ Multiset.le_add_right _ _)
    refine ⟨hflushed, hsent0, ?_, fun p hp => ?_⟩
    · show ((s.l1d.step (s.l1dIn i)).pending.map Prod.fst) = 0
      rw [hpend]
      rfl
    · have hu := (Exec.portInv_of_reach (reach_exec hre)).mem_reports_step hint0 hp
      exact h.units_stay hre hr hd hu (Multiset.mem_of_le reports_le hp)

/-- RAT is entered from DRAIN when nothing is in flight and the memory side is empty. -/
theorem leaves_drain (hs : s.core.rState = .drain) (hn : (s.step i).core.rState ≠ .drain) :
    (∀ p, s.core.rRobInflight p = false) ∧ s.l1d.memqEmpty = true ∧
      (s.step i).core.rState = .rat := by
  have hst : (s.step i).core.rState = (s.core.drainCtl (s.coreIn i)).nState := by
    show (s.core.ctl (s.coreIn i)).nState = _
    rw [Core.ctl, hs]
  rw [hst] at hn ⊢
  unfold Core.drainCtl at hn ⊢
  split_ifs at hn ⊢ with hall
  · exact ⟨hall.1, hall.2.1, rfl⟩
  · exact absurd hs hn

theorem Inv.tokens_none (h : s.Inv) (hre : backMachine.Reach env s) (hr : s.l1d.NoFlushRace)
    (hd : s.core.rDsDone = true) (h0 : s.inFlight = 0) (hi : ∀ p, s.core.rRobInflight p = false)
    (hs' : (s.step i).core.rState ≠ .drain)
    (hw : ¬Core.Drains (s.step i).core.rState → ∀ p, (s.step i).exec.rMqWait p = false)
    (hfresh : Core.Drains (s.step i).core.rState ∨ Core.Halted (s.step i).core.rState ∨
      ((s.step i).core.rState = .active ∧ (s.step i).core.robCount = 0)) :
    (s.step i).TokensInv := by
  have hreq := L1d.reach_reqInv (reach_l1d hre)
  have ha : s.core.nAllocated (s.coreIn i) = 0 := by
    have hno : (s.coreCtl i).tAlloc = false := Bool.eq_false_iff.mpr fun ha => by
      rw [h.occ.ds.of_alloc ha] at hd
      cases hd
    exact if_neg (by rw [show (s.core.ctl (s.coreIn i)).tAlloc = false from hno]; decide)
  exact .of_zero (inFlight_none hre hr hd h0) (Core.still_step ha hi) hs' hw (fun _ => hfresh)
    (h.tokens.counts.step hreq hr)

/-- RAT is left for ACTIVE when the restart is acknowledged, which clears the wait bits. -/
theorem rat_next (hs : s.core.rState = .rat) : (s.step i).core.rState = .rat ∨
    (s.step i).core.rState = .active ∧ ∀ p, (s.step i).exec.rMqWait p = false := by
  have hc : s.coreCtl i = s.core.ratCtl (s.coreIn i) := by rw [coreCtl, Core.ctl, hs]
  have hst : (s.step i).core.rState = (s.coreCtl i).nState := rfl
  have hrc : (s.execIn i).restartComplete = (s.coreCtl i).tRestartComplete := rfl
  rw [hst]
  rw [hc] at hrc ⊢
  unfold Core.ratCtl at hrc ⊢
  split_ifs at hrc ⊢ with hg
  · refine .inr ⟨rfl, fun p => ?_⟩
    show (if (s.execIn i).restartComplete then fun _ => false
      else s.exec.nMqWait (s.execIn i)) p = false
    rw [hrc, if_pos rfl]
  · exact .inl hs

theorem flushForHalt_next (hs : s.core.rState = .flushForHalt) :
    Core.Halted (s.step i).core.rState := by
  have hc : (s.step i).core.rState = (s.core.flushForHaltCtl (s.coreIn i)).nState := by
    show (s.core.ctl (s.coreIn i)).nState = _
    rw [Core.ctl, hs]
  rw [hc]
  simp only [Core.flushForHaltCtl]
  split_ifs
  · exact .inr (.inl rfl)
  · exact .inl hs

theorem Inv.tokens_high (h : s.Inv) (hre : backMachine.Reach env s) (hr : s.l1d.NoFlushRace)
    (hd : s.core.rDsDone = true) : (s.step i).TokensInv := by
  rcases h.occ.ds.up hd with (hs | hs) | hs
  · -- in DRAIN
    by_cases hs' : (s.step i).core.rState = .drain
    · exact h.tokens_drain hre hr hs hs'
    · obtain ⟨hi, he, hrat⟩ := leaves_drain hs hs'
      refine h.tokens_none hre hr hd (h.tokens.drained hs hi he) hi hs' (fun hn => ?_) ?_
      · exact absurd (.inr hrat) hn
      · exact .inl (.inr hrat)
  · -- in RAT
    have hnf : ¬s.Flushed := fun hf => by
      rw [hf.1] at hs
      cases hs
    have hi := h.occ.inflight.rat hs
    have h0 := h.tokens.inFlight_zero hnf hi
    have hcount : (s.step i).core.robCount = 0 := Core.robCount_rat hs
    rcases rat_next (i := i) hs with hst | ⟨hst, hclear⟩
    · refine h.tokens_none hre hr hd h0 hi (by rw [hst]; decide) (fun hn => ?_) ?_
      · exact absurd (.inr hst) hn
      · exact .inl (.inr hst)
    · exact h.tokens_none hre hr hd h0 hi (by rw [hst]; decide) (fun _ => hclear)
        (.inr (.inr ⟨hst, hcount⟩))
  · -- a fault has been recorded
    have hhalt : Core.Halted s.core.rState := .inl hs
    have hnf : ¬s.Flushed := fun hf => by
      rw [hf.1] at hs
      cases hs
    have hnd : ¬Core.Drains s.core.rState := fun hx => by
      rcases hx with hx | hx <;> rw [hs] at hx <;> cases hx
    have hi := h.occ.still hhalt
    have h0 := h.tokens.inFlight_zero hnf hi
    have hst := flushForHalt_next (i := i) hs
    refine h.tokens_none hre hr hd h0 hi (fun hx => ?_) (fun _ p => ?_) (.inr (.inl hst))
    · rw [hx] at hst
      rcases hst with hst | hst | hst <;> cases hst
    · have hw := (h.waits_le (i := i) hre hd p).2
      refine Bool.eq_false_iff.mpr fun hp => ?_
      have hmem := h.tokens.memWait hnd p (hw hp)
      have hin := Multiset.mem_of_le memSlots_le hmem
      rw [h0] at hin
      exact Multiset.notMem_zero p hin

/-! ### The invariant in a run -/

theorem Inv.step (h : s.Inv) (hre : backMachine.Reach env s) (hc : s.Calm i) : (s.step i).Inv := by
  have hreq := L1d.reach_reqInv (reach_l1d hre)
  have hr := h.noFlushRace hreq hc.quiet
  refine ⟨h.occ.step ⟨h.answers hre hr, hc.monitor, hc.quiet⟩, h.flush.step hreq, ?_⟩
  cases hd : s.core.rDsDone
  · exact h.tokens_low hre hr hd
  · exact h.tokens_high hre hr hd

theorem inv_reset (h : backMachine.reset s) : s.Inv := by
  have hflush := flushInv_reset h
  have h0 := inFlight_reset h
  obtain ⟨⟨rob, bob, dq, hc⟩, he, p, hl⟩ := h
  refine ⟨hc ▸ Core.init_occupied rob bob dq, hflush,
    .of_zero h0 (fun p => ?_) ?_ (fun _ p => ?_) (fun hx => ?_) ?_⟩
  · rw [hc]
    rfl
  · rw [hc]
    intro hx
    cases hx
  · rw [he.rMqWait]
  · rw [hc] at hx
    cases hx
  · rw [hl]
    exact L1d.init_counts p

end Back
end Rv32Core
