import Rv32Core.Lib.AgeMatrix
import Rv32Core.Lib.Clocked
import Rv32Core.FindFirstSet
import Rv32Core.Decode

/-! # The integer schedulers

Both integer ports are fed by a scheduler of eight entries: a valid bit, a uop and the two ready
bits of its sources per entry, and the age matrix.  A uop is allocated into the slot a priority
encoder finds free, waits until its sources are ready, and leaves when it is the oldest ready
entry.  The two schedulers differ only in which uops they take and in what makes an entry
ready, so they are one definition here; `wakeup` and the structural hazards are inputs. -/

namespace Rv32Core

open Clocked AgeMatrix

/-- An index of a scheduler entry, `LG_INT_SCHED_ENTRIES = 3`. -/
abbrev SchedIdx := BitVec 3

instance : Fintype SchedIdx := Fintype.ofEquiv (Fin (2 ^ 3)) BitVec.equivFin.symm.toEquiv

/-- The registers of a scheduler: `r_alu_sched_valid`, `r_alu_sched_uops`,
`r_alu_sched_matrix`, `r_alu_srcA_rdy` and `r_alu_srcB_rdy`. -/
structure AluSched where
  rValid : SchedIdx → Bool
  rUops : SchedIdx → Uop
  rMatrix : SchedIdx → SchedIdx → Bool
  rSrcARdy : SchedIdx → Bool
  rSrcBRdy : SchedIdx → Bool

/-- What a scheduler sees in a cycle: the flash clear, the uop offered with the ready bits of its
sources, and for every entry whether its sources are written in this cycle and whether its
operation may start. -/
structure SchedIn where
  flashClear : Bool
  pop : Bool
  uop : Uop
  srcARdy : Bool
  srcBRdy : Bool
  srcAMatch : SchedIdx → Bool
  srcBMatch : SchedIdx → Bool
  mayStart : SchedIdx → Bool

namespace AluSched

variable (s : AluSched) (i : SchedIn)

/-! ### Wires -/

/-- `t_alu_sched_alloc_ptr[2:0]`. -/
def allocPtr : SchedIdx := (findFirstSet 1 fun j => !s.rValid j).setWidth 3

/-- `t_alu_sched_full`. -/
def full : Bool := decide (∀ j, s.rValid j = true)

/-- `t_alu_entry_rdy`. -/
def entryRdy (j : SchedIdx) : Bool :=
  if s.rValid j && i.mayStart j then
    (i.srcAMatch j || s.rSrcARdy j) && (i.srcBMatch j || s.rSrcBRdy j)
  else false

/-- `t_alu_entry_rdy != 'd0`. -/
def anyRdy : Bool := !isZero (s.entryRdy i)

/-- `w_alu_sched_oldest_ready`. -/
def oldestReady (j : SchedIdx) : Bool := oldest s.rMatrix (s.entryRdy i) j

/-- `t_alu_sched_select_ptr[2:0]`. -/
def selectPtr : SchedIdx := (findFirstSet 1 (s.oldestReady i)).setWidth 3

/-- `t_alu_alloc_entry`. -/
def allocEntry (j : SchedIdx) : Bool := i.pop && decide (j = s.allocPtr)

/-- `t_alu_select_entry`. -/
def selectEntry (j : SchedIdx) : Bool := s.anyRdy i && decide (j = s.selectPtr i)

/-- `t_picked_uop`. -/
def picked : Uop := s.rUops (s.selectPtr i)

/-! ### The clock edge -/

/-- The row of an entry after the cycle. -/
def nMatrix (j : SchedIdx) : SchedIdx → Bool :=
  if s.allocEntry i j then fun k => s.rValid k && !s.selectEntry i k
  else if s.anyRdy i then fun k => s.rMatrix j k && !s.selectEntry i k
  else s.rMatrix j

/-- A ready bit of an entry after the cycle. -/
def nSrcRdy (allocRdy : Bool) (srcMatch rdy : SchedIdx → Bool) (j : SchedIdx) : Bool :=
  if s.allocEntry i j then allocRdy
  else if s.selectEntry i j then false
  else if s.rValid j then rdy j || srcMatch j
  else rdy j

/-- One rising clock edge. -/
def step : AluSched where
  rValid :=
    if i.flashClear then fun _ => false
    else s.rValid |> writeIf i.pop s.allocPtr true |> writeIf (s.anyRdy i) (s.selectPtr i) false
  rUops :=
    if i.flashClear then s.rUops else s.rUops |> writeIf i.pop s.allocPtr i.uop
  rMatrix := if i.flashClear then fun _ _ => false else s.nMatrix i
  rSrcARdy := s.nSrcRdy i i.srcARdy i.srcAMatch s.rSrcARdy
  rSrcBRdy := s.nSrcRdy i i.srcBRdy i.srcBMatch s.rSrcBRdy

/-- The state after reset, from the power-up contents of the uop array. -/
def init (uops : SchedIdx → Uop) : AluSched where
  rValid _ := false
  rUops := uops
  rMatrix _ _ := false
  rSrcARdy _ := false
  rSrcBRdy _ := false

/-- A uop is offered only while a slot is free, and none during a flash clear. -/
def Offers (s : AluSched) (i : SchedIn) : Prop :=
  i.pop = true → s.full = false ∧ i.flashClear = false

end AluSched

/-- A scheduler as a synchronous machine. -/
def schedMachine : Machine AluSched SchedIn where
  reset s := ∃ uops, s = AluSched.init uops
  step := AluSched.step

namespace AluSched

variable {s : AluSched} {i : SchedIn}

/-! ### The slots named by the encoders -/

theorem encoded {x : SchedIdx → Bool} (h : ∃ j, x j = true) :
    x ((findFirstSet 1 x).setWidth 3) = true := by
  obtain ⟨p, hp, he⟩ := findFirstSet_spec 1 x (isZero_eq_false_iff.mpr h)
  rw [he]
  have hw : (p.cons false).setWidth 3 = p := by simp
  exact hw.symm ▸ hp

theorem allocPtr_free (h : s.full = false) : s.rValid s.allocPtr = false := by
  have hex : ∃ j, (!s.rValid j) = true := by
    simpa [full] using h
  have := encoded (x := fun j => !s.rValid j) hex
  simpa [allocPtr] using this

theorem entryRdy_valid {j : SchedIdx} (h : s.entryRdy i j = true) : s.rValid j = true := by
  unfold entryRdy at h
  split_ifs at h with hc
  exact (Bool.and_eq_true _ _ |>.mp hc).1

theorem anyRdy_iff : s.anyRdy i = true ↔ ∃ j, s.entryRdy i j = true := by
  rw [anyRdy, Bool.not_eq_true', isZero_eq_false_iff]

theorem allocEntry_eq {j : SchedIdx} (h : s.allocEntry i j = true) : j = s.allocPtr :=
  of_decide_eq_true (Bool.and_eq_true _ _ |>.mp h).2

theorem allocEntry_free (ho : s.Offers i) {j : SchedIdx} (h : s.allocEntry i j = true) :
    s.rValid j = false := by
  rw [allocEntry_eq h]
  exact allocPtr_free (ho (Bool.and_eq_true _ _ |>.mp h).1).1

theorem selectEntry_of_not_anyRdy (h : s.anyRdy i = false) (j : SchedIdx) :
    s.selectEntry i j = false := by
  rw [selectEntry, h, Bool.false_and]

/-! ### One step -/

theorem step_flash (h : i.flashClear = true) :
    (s.step i).rValid = (fun _ => false) ∧ (s.step i).rMatrix = (fun _ _ => false) :=
  ⟨if_pos h, if_pos h⟩

theorem step_uops (h : i.flashClear = false) (j : SchedIdx) :
    (s.step i).rUops j = if s.allocEntry i j then i.uop else s.rUops j := by
  have hu : (s.step i).rUops = writeIf i.pop s.allocPtr i.uop s.rUops := by
    unfold step
    rw [h]
    rfl
  rw [hu, writeIf_apply]
  simp only [allocEntry, Bool.and_eq_true, decide_eq_true_eq]

theorem step_matrix (h : i.flashClear = false) :
    (s.step i).rMatrix = matrixNext (s.allocEntry i) (s.selectEntry i) s.rValid s.rMatrix := by
  have hm : (s.step i).rMatrix = s.nMatrix i := by
    unfold step
    rw [h]
    rfl
  rw [hm]
  funext j k
  unfold nMatrix matrixNext
  cases ha : s.allocEntry i j
  · cases hr : s.anyRdy i
    · simp [selectEntry_of_not_anyRdy hr]
    · rfl
  · rfl

/-- The entry selected is the ready entry allocated first. -/
theorem selectPtr_eq {age : SchedIdx → ℕ} (ho : Ordered s.rValid s.rMatrix age) {k : SchedIdx}
    (hk : s.entryRdy i k = true)
    (hmin : ∀ j, s.entryRdy i j = true → j ≠ k → age k < age j) :
    (∀ j, s.oldestReady i j = decide (j = k)) ∧ s.selectPtr i = k := by
  have hone : ∀ j, s.oldestReady i j = decide (j = k) :=
    ho.oldest_eq (fun _ => entryRdy_valid) hk hmin
  have hsel := encoded (x := s.oldestReady i) ⟨k, (hone k).trans (decide_eq_true rfl)⟩
  exact ⟨hone, of_decide_eq_true ((hone _).symm.trans hsel)⟩

theorem selectPtr_ready {age : SchedIdx → ℕ} (ho : Ordered s.rValid s.rMatrix age)
    (h : s.anyRdy i = true) : s.entryRdy i (s.selectPtr i) = true := by
  obtain ⟨k, hk, hmin⟩ := ho.exists_first (fun _ => entryRdy_valid) (anyRdy_iff.mp h)
  rw [(selectPtr_eq ho hk hmin).2]
  exact hk

theorem selectEntry_valid {age : SchedIdx → ℕ} (ho : Ordered s.rValid s.rMatrix age) {j : SchedIdx}
    (h : s.selectEntry i j = true) : s.rValid j = true := by
  obtain ⟨hr, hj⟩ := Bool.and_eq_true _ _ |>.mp h
  rw [of_decide_eq_true hj]
  exact entryRdy_valid (selectPtr_ready ho hr)

/-- The occupied slots after a cycle: the one allocated is in, the one selected is out. -/
theorem step_valid {age : SchedIdx → ℕ} (ho : Ordered s.rValid s.rMatrix age) (hoff : s.Offers i)
    (h : i.flashClear = false) :
    (s.step i).rValid = validNext (s.allocEntry i) (s.selectEntry i) s.rValid := by
  have hv : (s.step i).rValid = writeIf (s.anyRdy i) (s.selectPtr i) false
      (writeIf i.pop s.allocPtr true s.rValid) := by
    unfold step
    rw [h]
    rfl
  rw [hv]
  funext j
  rw [writeIf_apply, writeIf_apply]
  unfold validNext
  cases ha : s.allocEntry i j
  · have hna : ¬(i.pop = true ∧ j = s.allocPtr) := fun hc => by
      rw [allocEntry, hc.1, decide_eq_true hc.2] at ha
      cases ha
    rw [if_neg hna, Bool.or_false]
    cases hs : s.selectEntry i j
    · rw [if_neg fun hc => by rw [selectEntry, hc.1, decide_eq_true hc.2] at hs; cases hs]
      exact (Bool.and_true _).symm
    · obtain ⟨hr, hj⟩ := Bool.and_eq_true _ _ |>.mp hs
      rw [if_pos ⟨hr, of_decide_eq_true hj⟩]
      exact (Bool.and_false _).symm
  · have hfree := allocEntry_free hoff ha
    have hns : ¬(s.anyRdy i = true ∧ j = s.selectPtr i) := fun hc => by
      have hvj := selectEntry_valid (i := i) ho (j := j) (by
        rw [selectEntry, hc.1, decide_eq_true hc.2]
        rfl)
      rw [hfree] at hvj
      cases hvj
    obtain ⟨hp, hj⟩ := Bool.and_eq_true _ _ |>.mp ha
    rw [if_neg hns, if_pos ⟨hp, of_decide_eq_true hj⟩, Bool.or_true]

theorem step_valid_cases {age : SchedIdx → ℕ} (ho : Ordered s.rValid s.rMatrix age)
    (hoff : s.Offers i) (hf : i.flashClear = false) {j : SchedIdx}
    (hj : (s.step i).rValid j = true) :
    (s.allocEntry i j = true ∧ i.pop = true) ∨
      (s.allocEntry i j = false ∧ s.rValid j = true ∧ s.selectEntry i j = false) := by
  rw [step_valid ho hoff hf] at hj
  unfold validNext at hj
  cases ha : s.allocEntry i j
  · rw [ha, Bool.or_false, Bool.and_eq_true, Bool.not_eq_true'] at hj
    exact .inr ⟨rfl, hj⟩
  · exact .inl ⟨rfl, (Bool.and_eq_true _ _ |>.mp ha).1⟩

/-- The entries that need a source are ready or have `C` to wait for. -/
def Awake (s : AluSched) (rdy : SchedIdx → Bool) (valid : Uop → Bool) (src : Uop → PrfPtr)
    (C : PrfPtr → Prop) : Prop :=
  ∀ j, s.rValid j = true → valid (s.rUops j) = true → rdy j = true ∨ C (src (s.rUops j))

/-- **No wakeup is lost in a step**: what an entry waits for either wakes it or stays, and a new
entry is ready or has something to wait for. -/
theorem Awake.step {age : SchedIdx → ℕ} {rdy srcMatch : SchedIdx → Bool} {allocRdy : Bool}
    {valid : Uop → Bool} {src : Uop → PrfPtr} {C D : PrfPtr → Prop}
    (h : s.Awake rdy valid src C) (ho : Ordered s.rValid s.rMatrix age) (hoff : s.Offers i)
    (hm : ∀ j, valid (s.rUops j) = true → C (src (s.rUops j)) →
      srcMatch j = true ∨ (i.flashClear = false → D (src (s.rUops j))))
    (ha : i.pop = true → valid i.uop = true → allocRdy = true ∨ D (src i.uop)) :
    (s.step i).Awake (s.nSrcRdy i allocRdy srcMatch rdy) valid src D := by
  intro j hj hv
  cases hf : i.flashClear
  · rw [step_uops hf] at hv ⊢
    unfold nSrcRdy
    obtain ⟨hal, hp⟩ | ⟨hal, hvj, hns⟩ := step_valid_cases ho hoff hf hj
    · rw [hal] at hv ⊢
      exact ha hp hv
    · rw [hal] at hv ⊢
      rw [hns, hvj]
      simp only [Bool.false_eq_true, if_false, if_true, Bool.or_eq_true]
      obtain hr | hc := h j hvj hv
      · exact .inl (.inl hr)
      · obtain hmj | hd := hm j hv hc
        · exact .inl (.inr hmj)
        · exact .inr (hd hf)
  · rw [(step_flash hf).1] at hj
    cases hj

/-- What `C` says of a source holds of the sources the entries are ready for. -/
def Sound (s : AluSched) (rdy : SchedIdx → Bool) (valid : Uop → Bool) (src : Uop → PrfPtr)
    (C : PrfPtr → Prop) : Prop :=
  ∀ j, s.rValid j = true → valid (s.rUops j) = true → rdy j = true → C (src (s.rUops j))

/-- **No entry is ready too early**: a source that is ready or matches has what the ready bit
stands for after the cycle, and so has a new entry that comes in ready. -/
theorem Sound.step {age : SchedIdx → ℕ} {rdy srcMatch : SchedIdx → Bool} {allocRdy : Bool}
    {valid : Uop → Bool} {src : Uop → PrfPtr} {C D : PrfPtr → Prop}
    (h : s.Sound rdy valid src C) (ho : Ordered s.rValid s.rMatrix age) (hoff : s.Offers i)
    (hm : ∀ j, s.rValid j = true → valid (s.rUops j) = true →
      srcMatch j = true ∨ C (src (s.rUops j)) → D (src (s.rUops j)))
    (ha : i.pop = true → valid i.uop = true → allocRdy = true → D (src i.uop)) :
    (s.step i).Sound (s.nSrcRdy i allocRdy srcMatch rdy) valid src D := by
  intro j hj hv hr
  cases hf : i.flashClear
  · rw [step_uops hf] at hv ⊢
    unfold nSrcRdy at hr
    obtain ⟨hal, hp⟩ | ⟨hal, hvj, hns⟩ := step_valid_cases ho hoff hf hj
    · rw [hal] at hv hr ⊢
      exact ha hp hv hr
    · rw [hal] at hv hr ⊢
      rw [hns, hvj] at hr
      simp only [Bool.false_eq_true, if_false, if_true, Bool.or_eq_true] at hr
      exact hm j hvj hv (hr.symm.imp_right (h j hvj hv))
  · rw [(step_flash hf).1] at hj
    cases hj

/-! ### Runs -/

end AluSched

/-- What a run of a scheduler has done: the cycle, the cycle of the last flash clear and the
cycle in which each entry was allocated, and the uops offered and issued with the cycles of
their allocations. -/
structure SchedLog where
  now : ℕ
  cleared : ℕ
  age : SchedIdx → ℕ
  offered : List (ℕ × Uop)
  issued : List (ℕ × Uop)

namespace AluSched

/-- The log before the first cycle. -/
def emptyLog : SchedLog := ⟨0, 0, fun _ => 0, [], []⟩

/-- The log after a cycle.  In a cycle with a flash clear no uop is issued: `r_start_int` is held
low by the same `ds_done`. -/
def watch (l : SchedLog) (s : AluSched) (i : SchedIn) : SchedLog where
  now := l.now + 1
  cleared := if i.flashClear then l.now + 1 else l.cleared
  age j := if s.allocEntry i j then l.now else l.age j
  offered := if i.pop then (l.now, i.uop) :: l.offered else l.offered
  issued :=
    if s.anyRdy i && !i.flashClear then (l.age (s.selectPtr i), s.picked i) :: l.issued
    else l.issued

/-- The matrix of a scheduler is the order of allocation, and the entries are the uops offered
and not yet issued. -/
structure InOrder (s : AluSched) (l : SchedLog) : Prop where
  order : Ordered s.rValid s.rMatrix l.age
  cleared : l.cleared ≤ l.now
  past : ∀ p ∈ l.offered, p.1 < l.now
  recent : ∀ j, s.rValid j = true → l.cleared ≤ l.age j
  held : ∀ j, s.rValid j = true → (l.age j, s.rUops j) ∈ l.offered
  was : ∀ p ∈ l.issued, p ∈ l.offered
  waits : ∀ j, s.rValid j = true → l.age j ∉ l.issued.map Prod.fst
  once : (l.issued.map Prod.fst).Nodup
  kept : ∀ p ∈ l.offered, l.cleared ≤ p.1 →
    p ∈ l.issued ∨ ∃ j, s.rValid j = true ∧ l.age j = p.1 ∧ s.rUops j = p.2

theorem inOrder_init (uops : SchedIdx → Uop) : (init uops).InOrder emptyLog where
  order := Ordered.empty
  cleared := le_rfl
  past := fun _ h => absurd h List.not_mem_nil
  recent := fun _ h => absurd h Bool.false_ne_true
  held := fun _ h => absurd h Bool.false_ne_true
  was := fun _ h => absurd h List.not_mem_nil
  waits := fun _ h => absurd h Bool.false_ne_true
  once := List.nodup_nil
  kept := fun _ h => absurd h List.not_mem_nil

variable {s : AluSched} {i : SchedIn} {l : SchedLog}

theorem InOrder.held_past (h : s.InOrder l) {j : SchedIdx} (hj : s.rValid j = true) :
    l.age j < l.now :=
  h.past _ (h.held j hj)

theorem InOrder.step_flash (h : s.InOrder l) (ho : s.Offers i) (hf : i.flashClear = true) :
    (s.step i).InOrder (watch l s i) := by
  obtain ⟨hv, hm⟩ := AluSched.step_flash (s := s) hf
  have hp : i.pop = false := Bool.eq_false_iff.mpr fun hp => by
    rw [(ho hp).2] at hf
    cases hf
  have hno : ∀ j, (s.step i).rValid j = true → False := fun j hj => by
    rw [hv] at hj
    cases hj
  have hoff : (watch l s i).offered = l.offered := by rw [watch, hp]; rfl
  have hiss : (watch l s i).issued = l.issued := by
    rw [watch, hf, Bool.not_true, Bool.and_false]
    rfl
  have hcl : (watch l s i).cleared = l.now + 1 := by rw [watch, hf]; rfl
  exact
    { order := by rw [hv, hm]; exact Ordered.empty
      cleared := hcl.le
      past := fun p hmem => Nat.lt_succ_of_lt (h.past p (hoff ▸ hmem))
      recent := fun j hj => (hno j hj).elim
      held := fun j hj => (hno j hj).elim
      was := by rw [hoff, hiss]; exact h.was
      waits := fun j hj => (hno j hj).elim
      once := by rw [hiss]; exact h.once
      kept := fun p hmem hle => by
        rw [hcl] at hle
        have := h.past p (hoff ▸ hmem)
        omega }

/-! ### One cycle without a flash clear -/

theorem mem_offered {p : ℕ × Uop} : p ∈ (watch l s i).offered ↔
    (i.pop = true ∧ p = (l.now, i.uop)) ∨ p ∈ l.offered := by
  unfold watch
  cases i.pop <;> simp

theorem watch_issued (hf : i.flashClear = false) : (watch l s i).issued =
    if s.anyRdy i then (l.age (s.selectPtr i), s.picked i) :: l.issued else l.issued := by
  rw [watch, hf, Bool.not_false, Bool.and_true]

theorem watch_cleared (hf : i.flashClear = false) : (watch l s i).cleared = l.cleared := by
  rw [watch, hf]
  rfl

theorem watch_age (j : SchedIdx) :
    (watch l s i).age j = if s.allocEntry i j then l.now else l.age j := rfl

theorem InOrder.selected (h : s.InOrder l) (hr : s.anyRdy i = true) :
    s.rValid (s.selectPtr i) = true := entryRdy_valid (selectPtr_ready h.order hr)

/-- An entry came in in this cycle or was there before. -/
theorem InOrder.step_held (h : s.InOrder l) (ho : s.Offers i) (hf : i.flashClear = false)
    {j : SchedIdx} (hj : (s.step i).rValid j = true) :
    ((watch l s i).age j, (s.step i).rUops j) ∈ (watch l s i).offered := by
  rw [watch_age, step_uops hf, mem_offered]
  obtain ⟨ha, hp⟩ | ⟨ha, hv, -⟩ := step_valid_cases h.order ho hf hj
  · rw [ha]
    exact .inl ⟨hp, rfl⟩
  · rw [ha]
    exact .inr (h.held j hv)

theorem InOrder.step_recent (h : s.InOrder l) (ho : s.Offers i) (hf : i.flashClear = false)
    {j : SchedIdx} (hj : (s.step i).rValid j = true) :
    (watch l s i).cleared ≤ (watch l s i).age j := by
  rw [watch_cleared hf, watch_age]
  obtain ⟨ha, -⟩ | ⟨ha, hv, -⟩ := step_valid_cases h.order ho hf hj
  · rw [ha]
    exact h.cleared
  · rw [ha]
    exact h.recent j hv

theorem InOrder.issued_offered (h : s.InOrder l) (hf : i.flashClear = false) {p : ℕ × Uop}
    (hp : p ∈ (watch l s i).issued) : p ∈ l.offered := by
  rw [watch_issued hf] at hp
  split_ifs at hp with hr
  · obtain rfl | hp := List.mem_cons.mp hp
    · exact h.held _ (h.selected hr)
    · exact h.was p hp
  · exact h.was p hp

/-- An entry has not been issued: a new one is younger than what was, and the one selected
leaves. -/
theorem InOrder.step_waits (h : s.InOrder l) (ho : s.Offers i) (hf : i.flashClear = false)
    {j : SchedIdx} (hj : (s.step i).rValid j = true) :
    (watch l s i).age j ∉ (watch l s i).issued.map Prod.fst := by
  rw [watch_age]
  obtain ⟨ha, -⟩ | ⟨ha, hv, hns⟩ := step_valid_cases h.order ho hf hj
  · rw [ha]
    intro hm
    obtain ⟨p, hp, he⟩ := List.mem_map.mp hm
    have hlt : p.1 < l.now := h.past p (h.issued_offered hf hp)
    rw [he] at hlt
    exact lt_irrefl _ hlt
  · rw [ha, watch_issued hf]
    cases hr : s.anyRdy i
    · exact h.waits j hv
    · intro hm
      obtain he | hm := List.mem_cons.mp hm
      · have hjs := h.order.inj j _ hv (h.selected hr) he
        rw [selectEntry, hr, decide_eq_true hjs] at hns
        cases hns
      · exact h.waits j hv hm

theorem InOrder.step_kept_new (h : s.InOrder l) (ho : s.Offers i) (hf : i.flashClear = false)
    (hpop : i.pop = true) : ∃ j, (s.step i).rValid j = true ∧ (watch l s i).age j = l.now ∧
      (s.step i).rUops j = i.uop := by
  have ha : s.allocEntry i s.allocPtr = true := by
    rw [allocEntry, hpop, decide_eq_true rfl]
    rfl
  refine ⟨s.allocPtr, ?_, ?_, ?_⟩
  · rw [step_valid h.order ho hf, validNext, ha, Bool.or_true]
  · rw [watch_age, ha]
    rfl
  · rw [step_uops hf, ha]
    rfl

theorem InOrder.step_kept_old (h : s.InOrder l) (ho : s.Offers i) (hf : i.flashClear = false)
    {j : SchedIdx} (hv : s.rValid j = true) :
    (l.age j, s.rUops j) ∈ (watch l s i).issued ∨ (s.step i).rValid j = true ∧
      (watch l s i).age j = l.age j ∧ (s.step i).rUops j = s.rUops j := by
  have ha : s.allocEntry i j = false := Bool.eq_false_iff.mpr fun ha => by
    rw [allocEntry_free ho ha] at hv
    cases hv
  cases hs : s.selectEntry i j
  · refine .inr ⟨?_, ?_, ?_⟩
    · rw [step_valid h.order ho hf, validNext, hv, hs, ha]
      rfl
    · rw [watch_age, ha]
      rfl
    · rw [step_uops hf, ha]
      rfl
  · obtain ⟨hr, hjs⟩ := Bool.and_eq_true _ _ |>.mp hs
    obtain rfl := of_decide_eq_true hjs
    refine .inl ?_
    rw [watch_issued hf, if_pos hr, picked]
    exact List.mem_cons_self

theorem InOrder.step_kept (h : s.InOrder l) (ho : s.Offers i) (hf : i.flashClear = false)
    {p : ℕ × Uop} (hp : p ∈ (watch l s i).offered) (hle : (watch l s i).cleared ≤ p.1) :
    p ∈ (watch l s i).issued ∨ ∃ j, (s.step i).rValid j = true ∧ (watch l s i).age j = p.1 ∧
      (s.step i).rUops j = p.2 := by
  rw [watch_cleared hf] at hle
  obtain ⟨hpop, rfl⟩ | hp := mem_offered.mp hp
  · exact .inr (h.step_kept_new ho hf hpop)
  obtain hi | ⟨j, hv, hj, hu⟩ := h.kept p hp hle
  · refine .inl ?_
    rw [watch_issued hf]
    split_ifs
    · exact List.mem_cons_of_mem _ hi
    · exact hi
  · rw [← hj, ← hu]
    exact (h.step_kept_old ho hf hv).imp (fun hi => by rwa [hj, hu] at hi) fun hk => ⟨j, hk⟩

theorem InOrder.step_run (h : s.InOrder l) (ho : s.Offers i) (hf : i.flashClear = false) :
    (s.step i).InOrder (watch l s i) where
  order := by
    rw [step_valid h.order ho hf, step_matrix hf]
    exact h.order.next (fun j => allocEntry_eq) (fun j => allocEntry_free ho)
      (fun j hj => h.held_past hj)
  cleared := by
    rw [watch_cleared hf]
    exact Nat.le_succ_of_le h.cleared
  past p hp := by
    obtain ⟨-, rfl⟩ | hp := mem_offered.mp hp
    · exact Nat.lt_succ_self _
    · exact Nat.lt_succ_of_lt (h.past p hp)
  recent _ hj := h.step_recent ho hf hj
  held _ hj := h.step_held ho hf hj
  was p hp := mem_offered.mpr (.inr (h.issued_offered hf hp))
  waits _ hj := h.step_waits ho hf hj
  once := by
    rw [watch_issued hf]
    split_ifs with hr
    · exact List.nodup_cons.mpr ⟨h.waits _ (h.selected hr), h.once⟩
    · exact h.once
  kept _ hp hle := h.step_kept ho hf hp hle

theorem InOrder.step (h : s.InOrder l) (ho : s.Offers i) : (s.step i).InOrder (watch l s i) := by
  cases hf : i.flashClear
  · exact h.step_run ho hf
  · exact h.step_flash ho hf

/-- A scheduler with the log of its run. -/
def loggedSched : Machine (AluSched × SchedLog) SchedIn := schedMachine.observed emptyLog watch

/-- **Every run keeps the order of allocation.** -/
theorem inOrder_of_reach {x : AluSched × SchedLog}
    (h : loggedSched.Reach (fun x i => x.1.Offers i) x) : x.1.InOrder x.2 := by
  refine h.invariant (P := fun x : AluSched × SchedLog => x.1.InOrder x.2) ?_
    fun x i hx he => hx.step he
  rintro ⟨s, l⟩ ⟨⟨uops, rfl⟩, rfl⟩
  exact inOrder_init uops

theorem ordered_of_reach {s : AluSched} (h : schedMachine.Reach Offers s) :
    ∃ age, Ordered s.rValid s.rMatrix age := by
  obtain ⟨l, hl⟩ := h.exists_observed emptyLog watch
  exact ⟨l.age, (inOrder_of_reach hl).order⟩

/-- **The scheduler issues in age order.**  Along every run: of two valid entries exactly one is
marked older by the matrix, namely the one allocated earlier, and no row marks an invalid entry;
whenever an entry is ready the oldest-ready vector is one-hot at the ready entry allocated first,
which is the slot selected, and a cycle without a flash clear frees that slot and no other, fills
the free slot of the uop popped and leaves every other entry as it is.  So a uop offered since the
last flash clear is issued or held by one entry, and never issued twice. -/
theorem oldest_first {x : AluSched × SchedLog}
    (h : loggedSched.Reach (fun x i => x.1.Offers i) x) :
    (∀ j k, x.1.rValid j = true → x.1.rValid k = true → j ≠ k →
      (x.1.rMatrix j k ^^ x.1.rMatrix k j) = true ∧
        (x.1.rMatrix j k = true ↔ x.2.age k < x.2.age j)) ∧
    (∀ j k, x.1.rMatrix j k = true → x.1.rValid k = true) ∧
    (∀ i, x.1.anyRdy i = true → ∃ k, x.1.entryRdy i k = true ∧
      (∀ j, x.1.entryRdy i j = true → j ≠ k → x.2.age k < x.2.age j) ∧
      (∀ j, x.1.oldestReady i j = decide (j = k)) ∧ x.1.selectPtr i = k) ∧
    (∀ i, x.1.Offers i → i.flashClear = false → ∀ j,
      (x.1.step i).rValid j =
        ((x.1.rValid j && !(x.1.anyRdy i && decide (j = x.1.selectPtr i))) ||
          (i.pop && decide (j = x.1.allocPtr))) ∧
      (x.1.step i).rUops j = if i.pop && decide (j = x.1.allocPtr) then i.uop
        else x.1.rUops j) ∧
    (∀ i, x.1.Offers i → i.pop = true → x.1.rValid x.1.allocPtr = false) ∧
    (∀ p ∈ x.2.offered, x.2.cleared ≤ p.1 → p ∈ x.2.issued ∨
      ∃ j, x.1.rValid j = true ∧ x.2.age j = p.1 ∧ x.1.rUops j = p.2) ∧
    (∀ j, x.1.rValid j = true → (x.2.age j, x.1.rUops j) ∈ x.2.offered ∧
      x.2.age j ∉ x.2.issued.map Prod.fst) ∧
    (∀ p ∈ x.2.issued, p ∈ x.2.offered) ∧ (x.2.issued.map Prod.fst).Nodup := by
  have hx := inOrder_of_reach h
  refine ⟨fun j k hj hk hne => ⟨hx.order.exactly_one hj hk hne, hx.order.older j k hj hk⟩,
    hx.order.row, fun i hr => ?_, fun i ho hf j => ⟨?_, step_uops hf j⟩,
    fun i ho hp => allocPtr_free (ho hp).1, hx.kept, fun j hj => ⟨hx.held j hj, hx.waits j hj⟩,
    hx.was, hx.once⟩
  · obtain ⟨k, hk, hmin⟩ := hx.order.exists_first (fun _ => entryRdy_valid) (anyRdy_iff.mp hr)
    exact ⟨k, hk, hmin, selectPtr_eq hx.order hk hmin⟩
  · rw [step_valid hx.order ho hf]
    rfl

/-- `ADDI x1,x1,1`. -/
def addiUop : Uop := decodeRiscv ⟨0x00108093, 0, 0, false, 0⟩

/-- The `ADDI` offered to a scheduler, its source not ready. -/
def addiOffered : SchedIn where
  flashClear := false
  pop := true
  uop := addiUop
  srcARdy := false
  srcBRdy := true
  srcAMatch _ := false
  srcBMatch _ := false
  mayStart _ := true

/-- Two uops allocated one after the other fill the slots 7 and 6, and row 6 marks slot 7. -/
theorem oldest_first_two :
    (((init fun _ => addiUop).step addiOffered).step addiOffered).rMatrix 6 7 = true :=
  have h : loggedSched.Reach (fun x i => x.1.Offers i)
      (loggedSched.run (init fun _ => addiUop, emptyLog) [addiOffered, addiOffered]) :=
    .step (.step (.reset ⟨⟨_, rfl⟩, rfl⟩) fun _ => ⟨by decide +kernel, rfl⟩)
      fun _ => ⟨by decide +kernel, rfl⟩
  ((oldest_first h).1 6 7 (by decide +kernel) (by decide +kernel) (by decide)).2.mpr
    (by decide +kernel)

end AluSched
end Rv32Core
