import Rv32Core.Exec.WriteBack
import Rv32Core.L1d.Answers
import Rv32Core.Core.Queues

/-! # The queues of the execution unit lose nothing

Every queue is followed by a log of what was pushed and popped since its last flush: what was
pushed is what was popped and then what the queue holds.  The memory uop queue and the store
data queue feed the request queue and the value queue through a register (`mem_uq` with
`r_mem_ready`, `mem_dq` with `r_dq_ready`), so a pop needs two free slots ahead: one for the uop
popped and one for the uop that may be in the register already. -/

namespace Rv32Core

open Clocked RingBuffer

/-! ### One queue -/

namespace ExecQueue

variable {k : ℕ} {α : Type*} {q : ExecQueue k α} {clear two one first : Bool} {a b : α}

/-- The entries, oldest first. -/
def view (q : ExecQueue k α) : List α := contents q.buf q.headPtr q.tailPtr

/-- The pointers are in step and the queue holds at most its capacity. -/
structure Ok (q : ExecQueue k α) : Prop where
  next : q.nextTailPtr = q.tailPtr + 1
  room : q.view.length ≤ 2 ^ k

/-- What a cycle pushes. -/
def pushed (two one first : Bool) (a b : α) : List α :=
  if two then [a, b] else if one then [if first then a else b] else []

theorem view_length : q.view.length = occ q.headPtr q.tailPtr := contents_length _ _ _

theorem IsReset.view (h : q.IsReset) : q.view = [] := by
  rw [← List.length_eq_zero_iff, view_length, h.1, h.2.1]
  exact occ_self 0

theorem IsReset.ok (h : q.IsReset) : q.Ok where
  next := by
    rw [h.2.1, h.2.2]
    exact (BitVec.zero_add _).symm
  room := by
    rw [h.view]
    exact Nat.zero_le _

theorem Ok.full_eq_false (h : q.Ok) (hf : q.full = false) : q.view.length + 1 ≤ 2 ^ k := by
  have := h.room
  rw [view_length] at this ⊢
  exact (isFull_eq_false_iff this).mp hf

theorem Ok.nextFull_eq_false (h : q.Ok) (hf : q.full = false) (hn : q.nextFull = false) :
    q.view.length + 2 ≤ 2 ^ k := by
  have h1 := h.full_eq_false hf
  rw [view_length] at h1 ⊢
  have h2 : 2 ^ (k + 1) = 2 ^ k + 2 ^ k := by rw [pow_succ]; omega
  have hk : 0 < 2 ^ k := Nat.two_pow_pos k
  have ho : occ q.headPtr (q.tailPtr + 1) = occ q.headPtr q.tailPtr + 1 :=
    occ_tail_add _ _ (n := 1) (by omega)
  rw [nextFull, h.next, isFull_eq_false_iff (by omega)] at hn
  omega

theorem view_pos (h : q.empty = false) : 1 ≤ q.view.length := by
  rw [view_length]
  exact occ_pos_iff.mpr (beq_eq_false_iff_ne.mp h)

theorem view_of_empty (h : q.empty = true) : q.view = [] := by
  have ho : q.headPtr = q.tailPtr := beq_iff_eq.mp h
  rw [view, ho, contents_self]

theorem view_head (h : q.empty = false) : q.view.take 1 = [q.head] := by
  rw [view, contents_pop _ (beq_eq_false_iff_ne.mp h)]
  rfl

theorem head_mem (h : q.empty = false) : q.head ∈ q.view := by
  refine List.mem_of_mem_take (i := 1) ?_
  rw [view_head h]
  exact List.mem_singleton_self _

theorem Ok.contents_pushed (h : q.Ok)
    (hp : q.view.length + (pushed two one first a b).length ≤ 2 ^ k) :
    contents (q.step false two one first a b 0).buf q.headPtr
        (q.tailPtr + BitVec.ofNat (k + 1) (pushed two one first a b).length) =
      q.view ++ pushed two one first a b := by
  rw [view_length] at hp
  unfold step pushed at *
  cases two
  · cases one
    · simp [view]
    · simp only [writeIf_true, Bool.false_eq_true, if_false, if_true, List.length_singleton] at hp ⊢
      exact contents_push _ _ (by omega)
  · simp only [if_true, List.length_cons, List.length_nil, writeIf_true] at hp ⊢
    have hne : idx q.tailPtr ≠ idx (q.tailPtr + 1) := fun he => by
      have := slot_inj (h := q.tailPtr) (i := 0) (j := 1) (by omega) (by omega)
        ((slot_zero _).trans he)
      omega
    rw [h.next, Function.update_comm hne.symm]
    exact contents_push_two _ _ _ (by omega)

theorem step_tailPtr (p : BitVec (k + 1)) :
    (q.step false two one first a b p).tailPtr =
        q.tailPtr + BitVec.ofNat (k + 1) (pushed two one first a b).length ∧
      (q.step false two one first a b p).nextTailPtr =
        q.nextTailPtr + BitVec.ofNat (k + 1) (pushed two one first a b).length := by
  unfold step pushed
  cases two <;> cases one <;> simp

/-- **One cycle of a queue**: entries leave at the head and enter at the tail. -/
theorem Ok.step (h : q.Ok) (clear : Bool) {n : ℕ} (hn : n ≤ q.view.length)
    (hp : q.view.length + (pushed two one first a b).length ≤ 2 ^ k) :
    (q.step clear two one first a b (BitVec.ofNat (k + 1) n)).Ok ∧
      (q.step clear two one first a b (BitVec.ofNat (k + 1) n)).view =
        if clear then [] else q.view.drop n ++ pushed two one first a b := by
  cases clear
  · obtain ⟨ht, hnt⟩ : (q.step false two one first a b (BitVec.ofNat (k + 1) n)).tailPtr = _ ∧ _ :=
      step_tailPtr _
    have hv : (q.step false two one first a b (BitVec.ofNat (k + 1) n)).view =
        q.view.drop n ++ pushed two one first a b := by
      have hc := h.contents_pushed hp
      have hlen : n ≤ occ q.headPtr
          (q.tailPtr + BitVec.ofNat (k + 1) (pushed two one first a b).length) := by
        rw [← contents_length (q.step false two one first a b 0).buf, hc, List.length_append]
        omega
      rw [view, ht]
      refine (contents_drop _ hlen).trans ?_
      rw [← List.drop_append_of_le_length hn]
      exact congrArg (List.drop n) hc
    refine ⟨⟨?_, ?_⟩, hv⟩
    · rw [ht, hnt, h.next, BitVec.add_assoc, BitVec.add_assoc, BitVec.add_comm 1]
    · rw [hv, List.length_append, List.length_drop]
      omega
  · have hr : (q.step true two one first a b (BitVec.ofNat (k + 1) n)).IsReset := ⟨rfl, rfl, rfl⟩
    exact ⟨hr.ok, hr.view⟩

end ExecQueue

/-! ### The log of a queue -/

/-- What entered and left a queue since its last flush. -/
structure Fifo (α : Type*) where
  pushed : List α
  popped : List α

/-- The log after a cycle. -/
def Fifo.next {α : Type*} (l : Fifo α) (clear : Bool) (push pop : List α) : Fifo α :=
  if clear then ⟨[], []⟩ else ⟨l.pushed ++ push, l.popped ++ pop⟩

/-- A queue keeps order: what was pushed is what was popped and then what it holds. -/
structure ExecQueue.Keeps {k : ℕ} {α : Type*} (q : ExecQueue k α) (l : Fifo α) : Prop where
  ok : q.Ok
  order : l.pushed = l.popped ++ q.view

theorem ExecQueue.IsReset.keeps {k : ℕ} {α : Type*} {q : ExecQueue k α} (h : q.IsReset) :
    q.Keeps ⟨[], []⟩ where
  ok := h.ok
  order := h.view.symm

theorem ExecQueue.Keeps.step {k : ℕ} {α : Type*} {q : ExecQueue k α} {l : Fifo α}
    {two one first : Bool} {a b : α} (h : q.Keeps l) (clear : Bool) {n : ℕ}
    (hn : n ≤ q.view.length) (hp : q.view.length + (pushed two one first a b).length ≤ 2 ^ k) :
    (q.step clear two one first a b (BitVec.ofNat (k + 1) n)).Keeps
      (l.next clear (pushed two one first a b) (q.view.take n)) := by
  obtain ⟨hok, hv⟩ := h.ok.step clear hn hp
  refine ⟨hok, ?_⟩
  rw [hv]
  cases clear
  · show l.pushed ++ _ = l.popped ++ _ ++ (_ ++ _)
    rw [h.order, List.append_assoc, List.append_assoc, ← List.append_assoc (q.view.take n),
      List.take_append_drop]
  · rfl

/-! ### The queues of the execution unit -/

/-- The logs of the five queues, and the ROB slots of all memory uops popped since reset. -/
structure ExecLog where
  uq : Fifo Uop
  memUq : Fifo Uop
  memDq : Fifo Dq
  memQ : Fifo MemReq
  mdq : Fifo MemData
  memPopped : List RobPtr

namespace Exec

variable {s : Exec} {i : ExecIn} {l : ExecLog}

/-- The core pushes as `uq_full` and `uq_next_full` allow, and the L1 data cache acknowledges
valid requests only. -/
structure Polite (s : Exec) (i : ExecIn) : Prop where
  push : i.uqPush = true → s.uqFull = false
  pushTwo : i.uqPushTwo = true → i.uqPush = true ∧ s.uqNextFull = false
  reqAck : i.memReqAck = true → s.memReqValid = true
  dataAck : i.coreStoreDataAck = true → s.coreStoreDataValid = true

theorem core_push_allowed {c : Core} {j : CoreIn} :
    (c.uqPush j = true → j.tUqFull = false) ∧
      (c.uqPushTwo j = true → c.uqPush j = true ∧ j.tUqNextFull = false) := by
  have h2 : c.tPush2 j = true → (c.ctl j).tAlloc = true ∧ j.tUqNextFull = false := fun h => by
    obtain ⟨ha, -, ht⟩ := Core.tAllocTwo_tAlloc (Bool.and_eq_true _ _ |>.mp h).1
    exact ⟨ha, (Core.allocTwoToo_spec ht).2.2.2.2.1⟩
  unfold Core.uqPush Core.uqPushTwo
  refine ⟨fun h => ?_, fun h => ?_⟩
  · cases h1 : c.tPush1 j
    · rw [h1] at h
      exact (Core.tAlloc_room (h2 h).1).2.2
    · exact (Core.tAlloc_room (Bool.and_eq_true _ _ |>.mp h1).1).2.2
  · rw [Bool.and_eq_true] at h
    rw [h.2]
    exact ⟨rfl, (h2 h.1).2⟩

/-- The uops pushed in a cycle that satisfy `p`, oldest first. -/
def accepted (p : Uop → Bool) (i : ExecIn) : List Uop :=
  (if i.uqPush && p i.uqUop then [i.uqUop] else []) ++
    if i.uqPushTwo && p i.uqUopTwo then [i.uqUopTwo] else []

/-- The number of uops that leave the uop queue. -/
def uqPops (s : Exec) (i : ExecIn) : ℕ :=
  if s.tPopUq2 i then 2 else if s.tPopUq i then 1 else 0

/-- The log after a cycle. -/
def watchQueues (l : ExecLog) (s : Exec) (i : ExecIn) : ExecLog where
  uq := l.uq.next i.dsDone (accepted Uop.isInt i) ([s.uq, s.uq2].take (s.uqPops i))
  memUq := l.memUq.next i.dsDone (accepted Uop.isMem i) (if s.tPopMemUq i then [s.tMemUq] else [])
  memDq := l.memDq.next i.memDqClr ((accepted hasData i).map toDq)
    (if s.tPopMemDq i then [s.tMemDq] else [])
  memQ := l.memQ.next false (if s.rMemReady then [s.tMemTail] else [])
    (if i.memReqAck then [s.memReq] else [])
  mdq := l.mdq.next i.memDqClr (if s.rDqReady then [s.tCoreStoreData] else [])
    (if i.coreStoreDataAck then [s.coreStoreData] else [])
  memPopped := l.memPopped ++ if s.tPopMemUq i then [s.tMemUq.robPtr] else []

/-- The queues keep order, and have room for what is on its way into them. -/
structure QueuesInv (s : Exec) (l : ExecLog) : Prop where
  uq : s.rUq.Keeps l.uq
  uqNext : s.rUqNextHeadPtr = s.rUq.headPtr + 1
  memUq : s.rMemUq.Keeps l.memUq
  memDq : s.rMemDq.Keeps l.memDq
  memQ : s.rMemQ.Keeps l.memQ
  mdq : s.rMdq.Keeps l.mdq
  memRoom : s.rMemQ.view.length + s.rMemReady.toNat ≤ 4
  dataRoom : s.rMdq.view.length + s.rDqReady.toNat ≤ 4
  memFlow : l.memPopped =
    l.memQ.pushed.map MemReq.robPtr ++ if s.rMemReady then [s.memUq.robPtr] else []
  dataFlow : l.memDq.popped.map Dq.robPtr =
    l.mdq.pushed.map MemData.robPtr ++ if s.rDqReady then [s.memDq.robPtr] else []

/-! ### What is pushed -/

theorem pushed_eq (h : i.uqPushTwo = true → i.uqPush = true) {α : Type*} (p : Uop → Bool)
    (f : Uop → α) :
    ExecQueue.pushed (pushTwo i p) (pushOne i p) (p i.uqUop) (f i.uqUop) (f i.uqUopTwo) =
      (accepted p i).map f := by
  unfold ExecQueue.pushed pushTwo pushOne accepted pushTwo
  cases hp : i.uqPush
  · have h2 : i.uqPushTwo = false := Bool.eq_false_iff.mpr fun h2 => by
      rw [h h2] at hp
      cases hp
    rw [h2]
    rfl
  · cases i.uqPushTwo <;> cases p i.uqUop <;> cases p i.uqUopTwo <;> rfl

theorem accepted_length (p : Uop → Bool) (i : ExecIn) : (accepted p i).length ≤ 2 ∧
    ((accepted p i).length = 1 → i.uqPush = true ∨ i.uqPushTwo = true) ∧
    ((accepted p i).length = 2 → i.uqPushTwo = true) := by
  unfold accepted
  cases i.uqPush <;> cases i.uqPushTwo <;> cases p i.uqUop <;> cases p i.uqUopTwo <;> simp

/-- A queue that is part of `uq_full` and `uq_next_full` has room for what is pushed. -/
theorem Polite.room (h : s.Polite i) {k : ℕ} {α : Type*} {q : ExecQueue k α} (hq : q.Ok)
    (hf : s.uqFull = false → q.full = false) (hn : s.uqNextFull = false → q.nextFull = false)
    (p : Uop → Bool) : q.view.length + (accepted p i).length ≤ 2 ^ k := by
  obtain ⟨h2, hone, htwo⟩ := accepted_length p i
  have hroom := hq.room
  have hpush : i.uqPush = true ∨ i.uqPushTwo = true → s.uqFull = false := by
    rintro (hp | hp)
    · exact h.push hp
    · exact h.push (h.pushTwo hp).1
  rcases Nat.lt_or_ge (accepted p i).length 1 with h0 | h1
  · omega
  · rcases Nat.lt_or_ge (accepted p i).length 2 with hlt | hge
    · have := hq.full_eq_false (hf (hpush (hone (by omega))))
      omega
    · have ht := htwo (by omega)
      have := hq.nextFull_eq_false (hf (hpush (.inr ht))) (hn (h.pushTwo ht).2)
      omega

theorem uqFull_eq_false (h : s.uqFull = false) :
    s.rUq.full = false ∧ s.rMemUq.full = false ∧ s.rMemDq.full = false := by
  rw [uqFull, Bool.or_eq_false_iff, Bool.or_eq_false_iff] at h
  exact ⟨h.1.1, h.1.2, h.2⟩

theorem uqNextFull_eq_false (h : s.uqNextFull = false) :
    s.rUq.nextFull = false ∧ s.rMemUq.nextFull = false ∧ s.rMemDq.nextFull = false := by
  rw [uqNextFull, Bool.or_eq_false_iff, Bool.or_eq_false_iff] at h
  exact ⟨h.1.1, h.1.2, h.2⟩

/-! ### What is popped -/

theorem tPopUq_spec (h : s.tPopUq i = true) :
    i.dsDone = false ∧ s.rUq.empty = false ∧ s.sched.full = false := by
  rw [tPopUq, Bool.not_eq_true', Bool.or_eq_false_iff, Bool.or_eq_false_iff] at h
  exact ⟨h.1.1, h.1.2, h.2⟩

theorem tPopMemUq_spec (h : s.tPopMemUq i = true) : s.rMemUq.empty = false ∧
    s.rMemQ.nextFull = false ∧ s.rMemQ.full = false ∧ i.dsDone = false := by
  simp only [tPopMemUq, Bool.and_eq_true, Bool.not_eq_true', Bool.or_eq_false_iff] at h
  exact ⟨h.1.1.1, h.1.1.2.1, h.1.1.2.2, h.2⟩

theorem tPopMemDq_spec (h : s.tPopMemDq i = true) : s.rMemDq.empty = false ∧
    s.rMdq.nextFull = false ∧ s.rMdq.full = false ∧ i.memDqClr = false := by
  simp only [tPopMemDq, Bool.and_eq_true, Bool.not_eq_true', Bool.or_eq_false_iff] at h
  exact ⟨h.1.1.1, h.2.1, h.2.2, h.1.1.2⟩

theorem QueuesInv.uq_pops (h : s.QueuesInv l) (i : ExecIn) :
    s.uqPops i ≤ s.rUq.view.length ∧
      s.rUq.view.take (s.uqPops i) = [s.uq, s.uq2].take (s.uqPops i) := by
  have hcons : s.tPopUq i = true → s.rUq.view =
      s.uq :: contents s.rUq.buf (s.rUq.headPtr + 1) s.rUq.tailPtr := fun hp =>
    contents_pop _ (beq_eq_false_iff_ne.mp (tPopUq_spec hp).2.1)
  unfold uqPops
  cases h2 : s.tPopUq2 i
  · cases h1 : s.tPopUq i
    · exact ⟨Nat.zero_le _, rfl⟩
    · rw [hcons h1]
      exact ⟨Nat.succ_le_succ (Nat.zero_le _), rfl⟩
  · have hne : s.rUq.headPtr + 1 ≠ s.rUq.tailPtr := fun he => by
      have hemp : s.tUqNextEmpty = true := by
        rw [tUqNextEmpty, h.uqNext, he]
        exact beq_self_eq_true _
      rw [tPopUq2, hemp] at h2
      cases h2
    have hq2 : s.uq2 = s.rUq.buf (idx (s.rUq.headPtr + 1)) := by rw [uq2, h.uqNext]
    rw [hcons (tPopUq_of_tPopUq2 h2).1, contents_pop _ hne, hq2]
    exact ⟨Nat.succ_le_succ (Nat.succ_le_succ (Nat.zero_le _)), rfl⟩

theorem one_pop {k : ℕ} {α : Type*} {q : ExecQueue k α} {pop : Bool}
    (h : pop = true → q.empty = false) :
    pop.toNat ≤ q.view.length ∧ q.view.take pop.toNat = if pop then [q.head] else [] := by
  cases pop
  · exact ⟨Nat.zero_le _, rfl⟩
  · exact ⟨ExecQueue.view_pos (h rfl), ExecQueue.view_head (h rfl)⟩

theorem ofNat_toNat_bool (k : ℕ) (b : Bool) :
    (if b then 1 else 0 : BitVec (k + 1)) = BitVec.ofNat (k + 1) b.toNat := by
  cases b <;> rfl

theorem ofNat_uqPops (s : Exec) (i : ExecIn) :
    (if s.tPopUq2 i then 2 else if s.tPopUq i then 1 else 0 : BitVec 4) =
      BitVec.ofNat 4 (s.uqPops i) := by
  unfold uqPops
  cases s.tPopUq2 i <;> cases s.tPopUq i <;> rfl

/-! ### One step of each queue -/

/-- `Polite.room`, of the list that the write ports of the queue push. -/
theorem Polite.pushed_room (h : s.Polite i) {k : ℕ} {α : Type*} {q : ExecQueue k α} (hq : q.Ok)
    (hf : s.uqFull = false → q.full = false) (hn : s.uqNextFull = false → q.nextFull = false)
    (p : Uop → Bool) (f : Uop → α) : q.view.length +
      (ExecQueue.pushed (Exec.pushTwo i p) (pushOne i p) (p i.uqUop) (f i.uqUop)
        (f i.uqUopTwo)).length ≤ 2 ^ k := by
  rw [pushed_eq (fun h2 => (h.pushTwo h2).1), List.length_map]
  exact h.room hq hf hn p

theorem QueuesInv.uq_room (h : s.QueuesInv l) (he : s.Polite i) : s.rUq.view.length +
    (ExecQueue.pushed (pushTwo i Uop.isInt) (pushOne i Uop.isInt) i.uqUop.isInt i.uqUop
      i.uqUopTwo).length ≤ 2 ^ 3 :=
  he.pushed_room h.uq.ok (fun hf => (uqFull_eq_false hf).1)
    (fun hf => (uqNextFull_eq_false hf).1) Uop.isInt id

theorem QueuesInv.memUq_room (h : s.QueuesInv l) (he : s.Polite i) : s.rMemUq.view.length +
    (ExecQueue.pushed (pushTwo i Uop.isMem) (pushOne i Uop.isMem) i.uqUop.isMem i.uqUop
      i.uqUopTwo).length ≤ 2 ^ 3 :=
  he.pushed_room h.memUq.ok (fun hf => (uqFull_eq_false hf).2.1)
    (fun hf => (uqNextFull_eq_false hf).2.1) Uop.isMem id

theorem QueuesInv.memDq_room (h : s.QueuesInv l) (he : s.Polite i) : s.rMemDq.view.length +
    (ExecQueue.pushed (pushTwo i hasData) (pushOne i hasData) (hasData i.uqUop) (toDq i.uqUop)
      (toDq i.uqUopTwo)).length ≤ 2 ^ 4 :=
  he.pushed_room h.memDq.ok (fun hf => (uqFull_eq_false hf).2.2)
    (fun hf => (uqNextFull_eq_false hf).2.2) hasData toDq

theorem Polite.pushed_uops (he : s.Polite i) (p : Uop → Bool) :
    ExecQueue.pushed (Exec.pushTwo i p) (pushOne i p) (p i.uqUop) i.uqUop i.uqUopTwo =
      accepted p i := by
  have hpush := pushed_eq (fun h2 => (he.pushTwo h2).1) p id
  rwa [List.map_id] at hpush

theorem QueuesInv.step_uq (h : s.QueuesInv l) (he : s.Polite i) :
    (s.step i).rUq.Keeps (watchQueues l s i).uq := by
  obtain ⟨hn, htake⟩ := h.uq_pops i
  have hk := h.uq.step i.dsDone hn (h.uq_room he)
  rw [htake, he.pushed_uops, ← ofNat_uqPops] at hk
  exact hk

theorem QueuesInv.step_memUq (h : s.QueuesInv l) (he : s.Polite i) :
    (s.step i).rMemUq.Keeps (watchQueues l s i).memUq := by
  obtain ⟨hn, htake⟩ := one_pop (fun hp => (tPopMemUq_spec (s := s) (i := i) hp).1)
  have hk := h.memUq.step i.dsDone hn (h.memUq_room he)
  rw [htake, he.pushed_uops, ← ofNat_toNat_bool] at hk
  exact hk

theorem QueuesInv.step_memDq (h : s.QueuesInv l) (he : s.Polite i) :
    (s.step i).rMemDq.Keeps (watchQueues l s i).memDq := by
  obtain ⟨hn, htake⟩ := one_pop (fun hp => (tPopMemDq_spec (s := s) (i := i) hp).1)
  have hk := h.memDq.step i.memDqClr hn (h.memDq_room he)
  rw [htake, pushed_eq (fun h2 => (he.pushTwo h2).1), ← ofNat_toNat_bool] at hk
  exact hk

theorem pushed_one {α : Type*} (b : Bool) (v : α) :
    ExecQueue.pushed false b true v v = if b then [v] else [] := rfl

theorem pushed_one_length {α : Type*} (b : Bool) (v : α) :
    (ExecQueue.pushed false b true v v).length = b.toNat := by
  cases b <;> rfl

/-- A queue of one push and one pop. -/
theorem keeps_one {k : ℕ} {α : Type*} {q : ExecQueue k α} {f : Fifo α} {ready ack : Bool} {v : α}
    (h : q.Keeps f) (clear : Bool) (hack : ack = true → q.empty = false)
    (hr : q.view.length + ready.toNat ≤ 2 ^ k) :
    (q.step clear false ready true v v (if ack then 1 else 0)).Keeps
      (f.next clear (if ready then [v] else []) (if ack then [q.head] else [])) := by
  obtain ⟨hn, htake⟩ := one_pop hack
  have hroom : q.view.length + (ExecQueue.pushed false ready true v v).length ≤ 2 ^ k := by
    rw [pushed_one_length]
    exact hr
  have hk := h.step clear hn hroom
  rw [htake, ← ofNat_toNat_bool] at hk
  exact hk

theorem QueuesInv.step_memQ (h : s.QueuesInv l) (he : s.Polite i) :
    (s.step i).rMemQ.Keeps (watchQueues l s i).memQ := by
  have hne : i.memReqAck = true → s.rMemQ.empty = false := fun ha => by
    have := he.reqAck ha
    rwa [memReqValid, Bool.not_eq_true'] at this
  exact keeps_one h.memQ false hne h.memRoom

theorem QueuesInv.step_mdq (h : s.QueuesInv l) (he : s.Polite i) :
    (s.step i).rMdq.Keeps (watchQueues l s i).mdq := by
  have hne : i.coreStoreDataAck = true → s.rMdq.empty = false := fun ha => by
    have := he.dataAck ha
    rwa [coreStoreDataValid, Bool.not_eq_true'] at this
  exact keeps_one h.mdq i.memDqClr hne h.dataRoom

/-- A pop finds two free slots ahead, so the uop popped and the uop already in the register both
fit. -/
theorem room_ahead {k : ℕ} {α : Type*} {q : ExecQueue k α} (hq : q.Ok)
    {clear ready pop ack : Bool} {v : α} (hack : ack = true → q.empty = false)
    (hr : q.view.length + ready.toNat ≤ 2 ^ k)
    (hpop : pop = true → q.nextFull = false ∧ q.full = false) :
    (q.step clear false ready true v v (if ack then 1 else 0)).view.length + pop.toNat ≤ 2 ^ k := by
  have h1 : pop.toNat ≤ 2 ^ k := (Bool.toNat_le pop).trans Nat.one_le_two_pow
  have h2 : pop = true → q.view.length + 2 ≤ 2 ^ k := fun hp =>
    hq.nextFull_eq_false (hpop hp).2 (hpop hp).1
  have h3 := Bool.toNat_le ready
  have hroom : q.view.length + (ExecQueue.pushed false ready true v v).length ≤ 2 ^ k := by
    rw [pushed_one_length]
    exact hr
  obtain ⟨-, hv⟩ := hq.step clear (one_pop hack).1 hroom
  rw [ofNat_toNat_bool, hv]
  cases clear
  · rw [if_neg Bool.false_ne_true, List.length_append, List.length_drop, pushed_one_length]
    cases pop
    · rw [Bool.toNat_false]
      omega
    · have := h2 rfl
      rw [Bool.toNat_true]
      omega
  · rw [if_pos rfl, List.length_nil]
    omega

theorem tMemTail_robPtr (s : Exec) : s.tMemTail.robPtr = s.memUq.robPtr := by
  unfold tMemTail
  cases s.memUq.op <;> rfl

theorem QueuesInv.step_memFlow (h : s.QueuesInv l) : (watchQueues l s i).memPopped =
    (watchQueues l s i).memQ.pushed.map MemReq.robPtr ++
      if (s.step i).rMemReady then [(s.step i).memUq.robPtr] else [] := by
  have hpushed : (watchQueues l s i).memQ.pushed.map MemReq.robPtr = l.memPopped := by
    show (l.memQ.pushed ++ if s.rMemReady then [s.tMemTail] else []).map MemReq.robPtr = _
    rw [h.memFlow, List.map_append]
    cases s.rMemReady
    · rfl
    · rw [← tMemTail_robPtr]
      rfl
  rw [hpushed]
  rfl

theorem QueuesInv.step_dataFlow (h : s.QueuesInv l) :
    (watchQueues l s i).memDq.popped.map Dq.robPtr =
      (watchQueues l s i).mdq.pushed.map MemData.robPtr ++
        if (s.step i).rDqReady then [(s.step i).memDq.robPtr] else [] := by
  have hready : (s.step i).rDqReady = s.tPopMemDq i := rfl
  have hmem : (s.step i).memDq = s.tMemDq := rfl
  rw [hready, hmem]
  unfold watchQueues Fifo.next
  cases hc : i.memDqClr
  · simp only [Bool.false_eq_true, if_false, List.map_append, h.dataFlow]
    cases s.rDqReady <;> cases s.tPopMemDq i <;> rfl
  · have hp : s.tPopMemDq i = false := Bool.eq_false_iff.mpr fun hp => by
      rw [(tPopMemDq_spec hp).2.2.2] at hc
      cases hc
    rw [hp]
    rfl

/-- **One cycle of the execution unit keeps its queues.** -/
theorem QueuesInv.step (h : s.QueuesInv l) (he : s.Polite i) :
    (s.step i).QueuesInv (watchQueues l s i) where
  uq := h.step_uq he
  uqNext := by
    show (if i.dsDone then 1 else s.rUqNextHeadPtr + _) = (if i.dsDone then 0 else _) + 1
    cases i.dsDone
    · rw [if_neg Bool.false_ne_true, if_neg Bool.false_ne_true, h.uqNext, BitVec.add_assoc,
        BitVec.add_assoc, BitVec.add_comm 1]
    · rfl
  memUq := h.step_memUq he
  memDq := h.step_memDq he
  memQ := h.step_memQ he
  mdq := h.step_mdq he
  memRoom := room_ahead h.memQ.ok
    (fun ha => by
      have := he.reqAck ha
      rwa [memReqValid, Bool.not_eq_true'] at this)
    h.memRoom fun hp => ⟨(tPopMemUq_spec hp).2.1, (tPopMemUq_spec hp).2.2.1⟩
  dataRoom := room_ahead h.mdq.ok
    (fun ha => by
      have := he.dataAck ha
      rwa [coreStoreDataValid, Bool.not_eq_true'] at this)
    h.dataRoom fun hp => ⟨(tPopMemDq_spec hp).2.1, (tPopMemDq_spec hp).2.2.1⟩
  memFlow := h.step_memFlow
  dataFlow := h.step_dataFlow

/-- The log before the first cycle. -/
def emptyLog : ExecLog := ⟨⟨[], []⟩, ⟨[], []⟩, ⟨[], []⟩, ⟨[], []⟩, ⟨[], []⟩, []⟩

theorem queuesInv_reset (h : s.IsReset) : s.QueuesInv emptyLog where
  uq := h.rUq.keeps
  uqNext := by
    rw [h.rUqNextHeadPtr, h.rUq.1]
    rfl
  memUq := h.rMemUq.keeps
  memDq := h.rMemDq.keeps
  memQ := h.rMemQ.keeps
  mdq := h.rMdq.keeps
  memRoom := by
    rw [h.rMemQ.view, h.rMemReady]
    exact Nat.zero_le _
  dataRoom := by
    rw [h.rMdq.view, h.rDqReady]
    exact Nat.zero_le _
  memFlow := by
    rw [h.rMemReady]
    rfl
  dataFlow := by
    rw [h.rDqReady]
    rfl

/-- The execution unit with the logs of its queues. -/
def loggedExec : Machine (Exec × ExecLog) ExecIn := execMachine.observed emptyLog watchQueues

theorem queuesInv_of_reach {x : Exec × ExecLog}
    (h : loggedExec.Reach (fun x i => x.1.Polite i) x) : x.1.QueuesInv x.2 := by
  refine h.invariant (P := fun x : Exec × ExecLog => x.1.QueuesInv x.2) ?_
    fun x i hx he => hx.step he
  rintro ⟨s, l⟩ ⟨hs, rfl⟩
  exact queuesInv_reset hs

end Exec

/-! ### The miss queue of the L1 data cache -/

namespace L1d

variable {s : L1d} {i : L1dIn} {l : Fifo MemReq}

/-- The log of the miss queue after a cycle. -/
def watchMisses (l : Fifo MemReq) (s : L1d) (i : L1dIn) : Fifo MemReq :=
  l.next false (if (s.ctl i).tPushMiss then [s.rReq2] else [])
    (if (s.ctl i).tPopMq then [s.tMemHead] else [])

/-- The L1 data cache with the log of its miss queue. -/
def loggedL1d : Machine (L1d × Fifo MemReq) L1dIn := l1dMachine.observed ⟨[], []⟩ watchMisses

theorem miss_pop_nonempty (h : (s.ctl i).tPopMq = true) : s.memQEmpty = false := by
  have hp := (mq_room (s := s) (i := i)).1
  rw [h, Bool.toNat_true] at hp
  exact beq_eq_false_iff_ne.mpr (occ_pos_iff.mp hp)

theorem ReqInv.miss_push_room (h : s.ReqInv) (hp : (s.ctl i).tPushMiss = true) :
    s.memQFull = false := by
  have hg := (mq_room (s := s) (i := i)).2
  have h8 := h.mqOcc
  rw [hp, Bool.toNat_true] at hg
  exact (isFull_eq_false_iff (k := 3) (by omega)).mpr (by omega)

theorem missLog_of_reach {env : L1d → L1dIn → Prop} {x : L1d × Fifo MemReq}
    (h : loggedL1d.Reach (fun x i => env x.1 i) x) : x.2.pushed = x.2.popped ++ x.1.mqView := by
  induction h with
  | @reset x h0 =>
      obtain ⟨⟨p, hp⟩, hl⟩ := h0
      rw [hp, hl]
      simp [mqView, init]
  | @step x i hr _ ih =>
      have hx : l1dMachine.Reach env x.1 := hr.of_observed
      have hpop : x.1.mqView.take (x.1.ctl i).tPopMq.toNat =
          if (x.1.ctl i).tPopMq then [x.1.tMemHead] else [] := by
        cases hp : (x.1.ctl i).tPopMq
        · rfl
        · rw [mqView, contents_pop _ (beq_eq_false_iff_ne.mp (miss_pop_nonempty hp))]
          rfl
      have hstep : (x.1.step i).mqView = x.1.mqView.drop (x.1.ctl i).tPopMq.toNat ++
          if (x.1.ctl i).tPushMiss then [x.1.rReq2] else [] := mqView_step (reach_reqInv hx)
      show x.2.pushed ++ _ = x.2.popped ++ _ ++ (x.1.step i).mqView
      rw [hstep, ih, ← hpop, List.append_assoc, List.append_assoc,
        ← List.append_assoc (x.1.mqView.take _), List.take_append_drop]

end L1d

/-! ### All queues -/

namespace Exec

variable {x : Exec × ExecLog} {y : L1d × Fifo MemReq} {env : L1d → L1dIn → Prop}

/-- **The execution and memory queues lose nothing.**  In every run in which the core pushes as the
full signals allow and only valid requests are acknowledged, each of the five queues of the
execution unit holds at most its capacity, has room for what is pushed and something for what is
popped, and since its last flush was pushed what was popped and then what it holds; the uop
between a pop and its registered push is accounted for.  In every run of the L1 data cache the
same holds of the miss queue, with room left for the request in `r_req2`. -/
theorem queues_lossless (h : loggedExec.Reach (fun x i => x.1.Polite i) x)
    (hy : L1d.loggedL1d.Reach (fun y i => env y.1 i) y) :
    (x.2.uq.pushed = x.2.uq.popped ++ x.1.rUq.view ∧ x.1.rUq.view.length ≤ 8) ∧
    (x.2.memUq.pushed = x.2.memUq.popped ++ x.1.rMemUq.view ∧ x.1.rMemUq.view.length ≤ 8) ∧
    (x.2.memDq.pushed = x.2.memDq.popped ++ x.1.rMemDq.view ∧ x.1.rMemDq.view.length ≤ 16) ∧
    (x.2.memQ.pushed = x.2.memQ.popped ++ x.1.rMemQ.view ∧
      x.1.rMemQ.view.length + x.1.rMemReady.toNat ≤ 4 ∧
      x.2.memPopped = x.2.memQ.pushed.map MemReq.robPtr ++
        if x.1.rMemReady then [x.1.memUq.robPtr] else []) ∧
    (x.2.mdq.pushed = x.2.mdq.popped ++ x.1.rMdq.view ∧
      x.1.rMdq.view.length + x.1.rDqReady.toNat ≤ 4 ∧
      x.2.memDq.popped.map Dq.robPtr = x.2.mdq.pushed.map MemData.robPtr ++
        if x.1.rDqReady then [x.1.memDq.robPtr] else []) ∧
    (∀ i, x.1.Polite i →
      x.1.rUq.view.length + (accepted Uop.isInt i).length ≤ 8 ∧
      x.1.rMemUq.view.length + (accepted Uop.isMem i).length ≤ 8 ∧
      x.1.rMemDq.view.length + (accepted hasData i).length ≤ 16 ∧
      x.1.rUq.view.take (x.1.uqPops i) = [x.1.uq, x.1.uq2].take (x.1.uqPops i) ∧
      x.1.uqPops i ≤ x.1.rUq.view.length ∧
      (x.1.tPopMemUq i = true → x.1.rMemUq.view ≠ []) ∧
      (x.1.tPopMemDq i = true → x.1.rMemDq.view ≠ []) ∧
      (i.memReqAck = true → x.1.rMemQ.view ≠ []) ∧
      (i.coreStoreDataAck = true → x.1.rMdq.view ≠ [])) ∧
    (y.2.pushed = y.2.popped ++ y.1.mqView ∧ y.1.mqView.length + y.1.rGotReq2.toNat ≤ 8 ∧
      ∀ i, ((y.1.ctl i).tPushMiss = true → y.1.memQFull = false ∧ y.1.rGotReq2 = true) ∧
        ((y.1.ctl i).tPopMq = true → y.1.memQEmpty = false)) := by
  have hx := queuesInv_of_reach h
  have hq : y.1.ReqInv := L1d.reach_reqInv hy.of_observed
  have hne : ∀ {k : ℕ} {α : Type _} {q : ExecQueue k α}, q.empty = false → q.view ≠ [] :=
    fun he hv => by
      have := ExecQueue.view_pos he
      rw [hv] at this
      cases this
  refine ⟨⟨hx.uq.order, hx.uq.ok.room⟩, ⟨hx.memUq.order, hx.memUq.ok.room⟩,
    ⟨hx.memDq.order, hx.memDq.ok.room⟩, ⟨hx.memQ.order, hx.memRoom, hx.memFlow⟩,
    ⟨hx.mdq.order, hx.dataRoom, hx.dataFlow⟩, fun i he => ?_, L1d.missLog_of_reach hy, ?_,
    fun i => ⟨fun hp => ⟨hq.miss_push_room hp, ?_⟩, L1d.miss_pop_nonempty⟩⟩
  · refine ⟨?_, ?_, ?_, (hx.uq_pops i).2, (hx.uq_pops i).1, fun hp => hne (tPopMemUq_spec hp).1,
      fun hp => hne (tPopMemDq_spec hp).1, fun ha => hne ?_, fun ha => hne ?_⟩
    · exact he.room hx.uq.ok (fun hf => (uqFull_eq_false hf).1)
        (fun hf => (uqNextFull_eq_false hf).1) Uop.isInt
    · exact he.room hx.memUq.ok (fun hf => (uqFull_eq_false hf).2.1)
        (fun hf => (uqNextFull_eq_false hf).2.1) Uop.isMem
    · exact he.room hx.memDq.ok (fun hf => (uqFull_eq_false hf).2.2)
        (fun hf => (uqNextFull_eq_false hf).2.2) hasData
    · have := he.reqAck ha
      rwa [memReqValid, Bool.not_eq_true'] at this
    · have := he.dataAck ha
      rwa [coreStoreDataValid, Bool.not_eq_true'] at this
  · rw [L1d.mqView, contents_length]
    exact hq.mqOcc
  · have := (L1d.mq_room (s := y.1) (i := i)).2
    rw [hp] at this
    cases hg : y.1.rGotReq2
    · rw [hg] at this
      cases this
    · rfl

/-- `LW x5,0(x0)`, renamed to write register 40 from ROB slot 3. -/
def lwUop : Uop := { decodeRiscv ⟨0x00002283, 0, 0, false, 0⟩ with dst := 40, robPtr := 3 }

/-- The load has left the memory uop queue and is about to enter the request queue. -/
def lwRun : Exec × ExecLog := loggedExec.run (init, emptyLog) [.push lwUop, .idle]

theorem queues_lossless_lw : lwRun.2.memPopped =
    lwRun.2.memQ.pushed.map MemReq.robPtr ++
      if lwRun.1.rMemReady then [lwRun.1.memUq.robPtr] else [] :=
  have h0 : loggedExec.reset (init, emptyLog) := ⟨isReset_init, rfl⟩
  have hidle : ∀ s : Exec, s.Polite .idle := fun _ => ⟨nofun, nofun, nofun, nofun⟩
  have h : loggedExec.Reach (fun x i => x.1.Polite i) lwRun :=
    .step (.step (.reset h0) ⟨fun _ => by decide +kernel, nofun, nofun, nofun⟩) (hidle _)
  have hy : L1d.loggedL1d.Reach (fun _ _ => True) (L1d.init L1dPowerUp.zero, ⟨[], []⟩) :=
    .reset ⟨⟨_, rfl⟩, rfl⟩
  (@queues_lossless _ _ (fun _ _ => True) h hy).2.2.2.1.2.2

end Exec
end Rv32Core
