import Rv32Core.Exec.Model
import Rv32Core.L1d.Answers
import Rv32Core.L1d.ByteLanes

/-! # Bad addresses

The execution unit marks an access whose bytes leave their cache line, and the data cache returns
the mark as `bad_addr`.  The mark is computed for each operation on its own.  For LHU it is the low
bit of the address, where LH has the line crossing: an unsigned load of a halfword at an odd address
inside its line is reported as bad.

An observer numbers the requests that the cache accepts and follows each number through the ports
and the miss queue, so that an answer names the request it is for. -/

namespace Rv32Core

open Clocked RingBuffer

/-! ### The request -/

/-- The loads and stores, with the bytes they touch. -/
def accessSize : Opcode → ℕ
  | .lb | .lbu | .sb => 1
  | .lh | .lhu | .sh => 2
  | .lw | .sw => 4
  | _ => 0

/-- LB, LBU, LH, LHU and LW. -/
def isLoadInsn : Opcode → Bool
  | .lb | .lbu | .lh | .lhu | .lw => true
  | _ => false

/-- SB, SH and SW. -/
def isStoreInsn : Opcode → Bool
  | .sb | .sh | .sw => true
  | _ => false

namespace Exec

variable {e : Exec}

/-- The address is the base plus the immediate. -/
def agu (e : Exec) : Word := e.tMemSrcA + e.memUq.rvimm

/-- The bytes of the access leave the 16-byte line of its address. -/
def Crosses (e : Exec) : Prop := 16 < lineOffset e.agu + accessSize e.memUq.op

/-- LHU at an odd address. -/
def OddLhu (e : Exec) : Prop := e.memUq.op = .lhu ∧ e.agu.getLsbD 0 = true

theorem bad16_iff (a : Word) :
    (a.extractLsb' 0 4 == BitVec.allOnes 4) = true ↔ 16 < lineOffset a + 2 := by
  have h : ∀ x : BitVec 4, (x == BitVec.allOnes 4) = true ↔ 16 < x.toNat + 2 := by decide
  exact h _

theorem bad32_iff (a : Word) :
    (a.extractLsb' 2 2 == BitVec.allOnes 2 && a.extractLsb' 0 2 != 0) = true ↔
      16 < lineOffset a + 4 := by
  have h : ∀ x : BitVec 4, (x.extractLsb' 2 2 == BitVec.allOnes 2 && x.extractLsb' 0 2 != 0) = true ↔
      16 < x.toNat + 4 := by decide
  have h2 : a.extractLsb' 2 2 = (a.extractLsb' 0 4).extractLsb' 2 2 := by
    apply BitVec.eq_of_getLsbD_eq
    intro k hk
    simp only [BitVec.getLsbD_extractLsb', Nat.zero_add]
    simp [show 2 + k < 4 by omega]
  have h0 : a.extractLsb' 0 2 = (a.extractLsb' 0 4).extractLsb' 0 2 := by
    apply BitVec.eq_of_getLsbD_eq
    intro k hk
    simp only [BitVec.getLsbD_extractLsb', Nat.zero_add]
    simp [show k < 4 by omega]
  rw [h2, h0]
  exact h _

theorem odd_of_crosses (a : Word) (h : 16 < lineOffset a + 2) : a.getLsbD 0 = true := by
  have hx : ∀ x : BitVec 4, 16 < x.toNat + 2 → x.getLsbD 0 = true := by decide
  have h0 := hx _ h
  rw [BitVec.getLsbD_extractLsb'] at h0
  simpa using h0

/-- What a request for a load or a store says of the access. -/
structure Sound (e : Exec) (q : MemReq) : Prop where
  addr : q.addr = e.agu
  spans : q.spansCacheline = true ↔ e.Crosses ∨ e.OddLhu
  loads : q.isLoad = isLoadInsn e.memUq.op
  op : q.spansCacheline = false → q.op ≠ .nop ∧ q.isStore = isStoreInsn e.memUq.op
  bad : q.spansCacheline = true → isStoreOp q.op = false ∧ q.isStore = false

theorem tMemTail_sound (h : isLoadInsn e.memUq.op = true ∨ isStoreInsn e.memUq.op = true) :
    e.Sound e.tMemTail := by
  have hlt : lineOffset e.agu < 16 := BitVec.isLt _
  have h16 := bad16_iff e.agu
  have h32 := bad32_iff e.agu
  have hodd := odd_of_crosses e.agu
  have hagu : e.wAgu32 = e.agu := rfl
  cases hop : e.memUq.op <;> rw [hop] at h <;>
    first | exact absurd h (by decide) | skip
  case lb | lbu | sb =>
    all_goals
      constructor <;>
        simp [tMemTail, hop, hagu, Crosses, OddLhu, accessSize, isLoadInsn, isStoreInsn]
      omega
  case lh | sh =>
    all_goals
      cases hb : e.agu.extractLsb' 0 4 == BitVec.allOnes 4 <;> rw [hb] at h16 <;> constructor <;>
        simp only [tMemTail, hop, hagu, hb] <;>
        simp [hop, Crosses, OddLhu, accessSize, isLoadInsn, isStoreInsn, isStoreOp]
      all_goals simpa using h16
  case lw | sw =>
    all_goals
      cases hb : e.agu.extractLsb' 2 2 == BitVec.allOnes 2 && e.agu.extractLsb' 0 2 != 0 <;>
        rw [hb] at h32 <;> constructor <;> simp only [tMemTail, hop, hagu, hb] <;>
        simp [hop, Crosses, OddLhu, accessSize, isLoadInsn, isStoreInsn, isStoreOp]
      all_goals simpa using h32
  case lhu =>
    constructor <;>
      simp [tMemTail, hop, hagu, Crosses, OddLhu, accessSize, isLoadInsn, isStoreInsn, isStoreOp]
    exact hodd

end Exec

/-! ### Numbered requests -/

/-- The requests accepted so far, and the numbers of those on the ports and in the miss queue. -/
structure Numbers where
  log : List MemReq
  port1 : ℕ
  port2 : ℕ
  queue : List ℕ

namespace L1d

variable {s : L1d} {i : L1dIn} {t : Numbers}

/-- The numbers after a cycle: each moves with its request. -/
def Numbers.next (t : Numbers) (s : L1d) (i : L1dIn) : Numbers where
  log := if (s.ctl i).coreMemReqAck then t.log ++ [i.coreMemReq] else t.log
  port1 := if (s.ctl i).tPopMq && (s.ctl i).tGotReq then t.queue.headD 0 else t.port1
  port2 := if (s.ctl i).coreMemReqAck then t.log.length else t.port2
  queue := t.queue.drop (s.ctl i).tPopMq.toNat ++ if (s.ctl i).tPushMiss then [t.port2] else []

/-- The data cache with the numbers of its requests. -/
def numberedL1d : Machine (L1d × Numbers) L1dIn :=
  l1dMachine.observed ⟨[], 0, 0, []⟩ Numbers.next

/-- The number of the request answered in a cycle: the one on port 1 when a load is answered there
or acknowledged with its line, else the one on port 2. -/
def answeredNumber (t : Numbers) (s : L1d) (i : L1dIn) : Option ℕ :=
  if (s.ctl i).nCoreMemRspValid then
    some (if s.answers1 || decide (s.rState = .injectReload) then t.port1 else t.port2)
  else none

/-- Port 1 holds a request, or waits for its line. -/
def Busy1 (s : L1d) : Prop :=
  s.rGotReq = true ∨ s.rState = .injectReload ∨ s.rState = .handleReload

/-- Each number names the request that stands where the number does; the data of a store arrives
when it leaves the queue. -/
structure Numbered (s : L1d) (t : Numbers) : Prop where
  port2 : s.rGotReq2 = true → t.log[t.port2]? = some s.rReq2
  queue : t.queue.map (t.log[·]?) = s.mqView.map some
  port1 : s.Busy1 → ∃ q, t.log[t.port1]? = some q ∧ s.rReq = { q with data := s.rReq.data }

theorem log_grows {q : MemReq} {n : ℕ} (h : t.log[n]? = some q) :
    (Numbers.next t s i).log[n]? = some q := by
  have hlog : (Numbers.next t s i).log =
      if (s.ctl i).coreMemReqAck then t.log ++ [i.coreMemReq] else t.log := rfl
  rw [hlog]
  split_ifs
  · rw [List.getElem?_append_left (List.getElem?_eq_some_iff.mp h).1, h]
  · exact h

theorem Numbered.step_queue (h : s.Numbered t) (hr : s.ReqInv) :
    (Numbers.next t s i).queue.map ((Numbers.next t s i).log[·]?) =
      (s.step i).mqView.map some := by
  have hold : t.queue.map ((Numbers.next t s i).log[·]?) = t.queue.map (t.log[·]?) := by
    apply List.map_congr_left
    intro n hn
    have hmem : t.log[n]? ∈ s.mqView.map some := h.queue ▸ List.mem_map_of_mem hn
    obtain ⟨q, -, hq⟩ := List.mem_map.mp hmem
    rw [log_grows hq.symm, hq]
  have hq : (Numbers.next t s i).queue =
      t.queue.drop (s.ctl i).tPopMq.toNat ++ if (s.ctl i).tPushMiss then [t.port2] else [] := rfl
  rw [mqView_step hr, hq, List.map_append, List.map_append, List.map_drop, hold, h.queue,
    List.map_drop]
  congr 1
  cases hp : (s.ctl i).tPushMiss
  · rfl
  · have hg : s.rGotReq2 = true := by
      have := (mq_room (s := s) (i := i)).2
      rw [hp] at this
      cases h2 : s.rGotReq2
      · rw [h2] at this
        exact absurd this (by decide)
      · rfl
    have h2 := log_grows (s := s) (i := i) (h.port2 hg)
    simp [h2]

theorem Numbers.next_port2 :
    (s.step i).rGotReq2 = true → (Numbers.next t s i).log[(Numbers.next t s i).port2]? =
      some (s.step i).rReq2 := by
  intro hg
  have hs : s.rState = .active := by
    by_contra hs
    have hgot : (s.step i).rGotReq2 = false := (quiet hs).tGotReq2
    rw [hgot] at hg
    cases hg
  have hc : s.ctl i = _ := (ctl_active hs).trans activeCtl_eq
  have hgot : (s.step i).rGotReq2 = s.accepts i := congrArg L1dCtl.tGotReq2 hc
  have ha : s.accepts i = true := hgot.symm.trans hg
  have hk : (s.ctl i).coreMemReqAck = true := (congrArg L1dCtl.coreMemReqAck hc).trans ha
  have hreq : (s.step i).rReq2 = if s.accepts i then i.coreMemReq else s.rReq2 :=
    congrArg L1dCtl.nReq2 hc
  rw [hreq, if_pos ha, Numbers.next]
  simp [hk]

theorem Numbered.step_port1 (h : s.Numbered t) (hr : s.ReqInv) :
    (s.step i).Busy1 → ∃ q, (Numbers.next t s i).log[(Numbers.next t s i).port1]? = some q ∧
      (s.step i).rReq = { q with data := (s.step i).rReq.data } := by
  intro hb
  have hlog (hp : (Numbers.next t s i).port1 = t.port1) (hreq : (s.step i).rReq = s.rReq)
      (hb : s.Busy1) : ∃ q, (Numbers.next t s i).log[(Numbers.next t s i).port1]? = some q ∧
        (s.step i).rReq = { q with data := (s.step i).rReq.data } := by
    obtain ⟨q, hq, he⟩ := h.port1 hb
    exact ⟨q, hp ▸ log_grows hq, hreq ▸ he⟩
  by_cases hs : s.rState = .active
  · have hst : (s.step i).rState = _ := hr.nState_active (i := i) hs
    have hc : s.ctl i = _ := (ctl_active hs).trans activeCtl_eq
    have hgot : (s.ctl i).tGotReq = s.fires i := congrArg L1dCtl.tGotReq hc
    have hreq : (s.step i).rReq = _ := congrArg L1dCtl.nReq hc
    dsimp only at hreq
    cases hf : s.fires i
    · -- what misses stays on port 1
      have hmiss : s.miss = true := by
        rw [Busy1, hst] at hb
        obtain hg | hg | hg := hb
        · exact absurd (hf.symm.trans (hgot.symm.trans hg)) Bool.false_ne_true
        · split_ifs at hg with h1 h2 h3
          exact h3
        · split_ifs at hg
      have hg : s.rGotReq = true := by
        simp only [miss, Bool.and_eq_true] at hmiss
        exact hmiss.1
      have hf' : s.firesStore i = false ∧ s.firesLoad = false := by
        simpa [fires, Bool.or_eq_false_iff] using hf
      refine hlog ?_ ?_ (.inl hg)
      · simp [Numbers.next, hgot, hf]
      · rw [hreq, hf'.1, hf'.2]
        rfl
    · -- the head of the queue takes its number along
      have hpop : (s.ctl i).tPopMq = true := by
        have hp : (s.ctl i).tPopMq = (s.fires i || s.dropsStore i) := congrArg L1dCtl.tPopMq hc
        rw [hp, hf, Bool.true_or]
      have hq := h.queue
      rw [mqView_cons (fires_headGo hf), List.map_cons] at hq
      obtain ⟨n, l, htq, hn, -⟩ := List.map_eq_cons_iff.mp hq
      refine ⟨s.tMemHead, ?_, ?_⟩
      · have hp : (Numbers.next t s i).port1 = n := by simp [Numbers.next, hpop, hgot, hf, htq]
        rw [hp]
        exact log_grows hn
      · rw [hreq]
        rw [fires, Bool.or_eq_true] at hf
        split_ifs with h1 h2
        · rfl
        · rfl
        · exact absurd hf (by simp [h1, h2])
  · have hq := quiet (i := i) hs
    obtain ⟨-, hinj, hhan, -⟩ := nState_reload (i := i) hs hr.noWait
    refine hlog (by simp [Numbers.next, hq.tPopMq]) hq.nReq ?_
    obtain hg | hg | hg := hb
    · have hgot : (s.step i).rGotReq = _ := ctl_tGotReq (s := s) (i := i)
      rw [hgot] at hg
      cases hst : s.rState <;> rw [hst] at hg <;>
        first | exact absurd hst hs | exact absurd hg Bool.false_ne_true | exact .inr (.inr hst)
    · exact .inr (.inl (hinj hg).1)
    · exact .inr (.inl (hhan hg).1)

theorem Numbered.step (h : s.Numbered t) (hr : s.ReqInv) :
    (s.step i).Numbered (Numbers.next t s i) :=
  ⟨Numbers.next_port2, h.step_queue hr, h.step_port1 hr⟩

theorem numbered_of_reach {x : L1d × Numbers} (h : numberedL1d.Reach (fun _ _ => True) x) :
    x.1.Numbered x.2 ∧ x.1.ReqInv := by
  have hreq (y : L1d × Numbers) (hy : numberedL1d.Reach (fun _ _ => True) y) : y.1.ReqInv := by
    exact reach_reqInv (@Machine.Reach.of_observed _ _ _ l1dMachine (fun _ _ => True) _ _ _ hy)
  refine ⟨?_, hreq x h⟩
  induction h with
  | @reset x h0 =>
      obtain ⟨⟨p, hp⟩, ht⟩ := h0
      rw [hp, ht]
      refine ⟨fun hg => (Bool.false_ne_true hg).elim, ?_, ?_⟩
      · simp [mqView, init]
      · rintro (hg | hg | hg)
        · exact (Bool.false_ne_true hg).elim
        · cases hg
        · cases hg
  | @step x i hr _ ih => exact ih.step (hreq x hr)

/-! ### Answers -/

theorem Numbered.port1_eq (h : s.Numbered t) (hb : s.Busy1) : ∃ q, t.log[t.port1]? = some q ∧
    s.rReq.op = q.op ∧ s.rReq.spansCacheline = q.spansCacheline ∧ s.rReq.robPtr = q.robPtr := by
  obtain ⟨q, hq, he⟩ := h.port1 hb
  refine ⟨q, hq, ?_⟩
  rw [he]
  exact ⟨rfl, rfl, rfl⟩

theorem rsp2_of_answers2 {c : MemRsp} (h : s.answers2 i = true) :
    (s.rsp2 i c).badAddr = s.rReq2.spansCacheline ∧ (s.rsp2 i c).robPtr = s.rReq2.robPtr := by
  have hp : (s.pushes i && !s.rReq2.isStore) = false := by
    simp only [answers2, Bool.and_eq_true, Bool.not_eq_true'] at h
    exact h.2
  have hg : s.rGotReq2 = true := by
    simp only [answers2, Bool.and_eq_true] at h
    exact h.1
  rw [rsp2]
  cases hb : s.bypass2 i
  · cases hst : s.rReq2.isStore
    · cases hl : s.loadHit2
      · simp [pushes, hg, hb, hst, hl] at hp
      · exact ⟨rfl, rfl⟩
    · exact ⟨rfl, rfl⟩
  · exact ⟨rfl, rfl⟩

theorem Numbered.answered {n : ℕ} (h : s.Numbered t) (hr : s.ReqInv)
    (hn : answeredNumber t s i = some n) : ∃ q, t.log[n]? = some q ∧
      (s.ctl i).nCoreMemRsp.badAddr = q.spansCacheline ∧
      (s.ctl i).nCoreMemRsp.robPtr = q.robPtr := by
  have hv : (s.ctl i).nCoreMemRspValid = true := by
    by_contra hv
    rw [answeredNumber, if_neg hv] at hn
    cases hn
  rw [answeredNumber, if_pos hv] at hn
  obtain rfl := Option.some.inj hn
  by_cases hs : s.rState = .active
  · have hc : s.ctl i = _ := (ctl_active hs).trans activeCtl_eq
    have hrsp : (s.ctl i).nCoreMemRsp = _ := congrArg L1dCtl.nCoreMemRsp hc
    have hval : (s.ctl i).nCoreMemRspValid = (s.answers1 || s.answers2 i) :=
      congrArg L1dCtl.nCoreMemRspValid hc
    dsimp only at hrsp
    have hni : decide (s.rState = .injectReload) = false := by rw [hs]; rfl
    rw [hni, Bool.or_false]
    cases h1 : s.answers1
    · rw [hval, h1, Bool.false_or] at hv
      have hg2 : s.rGotReq2 = true := by
        simp only [answers2, Bool.and_eq_true] at hv
        exact hv.1
      refine ⟨s.rReq2, h.port2 hg2, ?_⟩
      rw [hrsp, h1, if_neg Bool.false_ne_true, if_pos hg2]
      exact rsp2_of_answers2 hv
    · have h1' := h1
      simp only [answers1, Bool.and_eq_true, Bool.not_eq_true'] at h1'
      have hg2 : s.rGotReq2 = false := by
        by_contra hg2
        rw [hr.both h1'.1.1 (Bool.not_eq_false _ |>.mp hg2)] at h1'
        cases h1'.2
      obtain ⟨q, hq, -, hspans, hrob⟩ := h.port1_eq (.inl h1'.1.1)
      refine ⟨q, hq, ?_⟩
      rw [hrsp, h1, if_pos rfl, hg2, if_neg Bool.false_ne_true]
      exact ⟨hspans, hrob⟩
  · obtain ⟨hack, hcond⟩ := ctl_nCoreMemRspValid (i := i) hs
    rw [hack, hcond, Bool.and_eq_true, Bool.and_eq_true, decide_eq_true_eq] at hv
    obtain ⟨⟨hst, hm⟩, hl⟩ := hv
    obtain ⟨q, hq, -, hspans, hrob⟩ := h.port1_eq (.inr (.inl hst))
    have hd : decide (s.rState = .injectReload) = true := decide_eq_true hst
    have hrsp : (s.ctl i).nCoreMemRsp =
        ⟨(s.tRspData i).setWidth 32, s.rReq.robPtr, s.rReq.dstPtr, s.rReq.dstValid,
          s.rReq.spansCacheline, s.rReq.pc⟩ := by
      rw [ctl, hst]
      simp only [injectReloadCtl, hm, hl, if_true]
    refine ⟨q, ?_, ?_⟩
    · rw [hd, Bool.or_true, if_pos rfl]
      exact hq
    · rw [hrsp]
      exact ⟨hspans, hrob⟩

theorem Numbered.writes (h : s.Numbered t) (hw : s.tWrArray = true) :
    ∃ q, t.log[t.port1]? = some q ∧ isStoreOp q.op = true := by
  simp only [tWrArray, tHitCache, Bool.and_eq_true] at hw
  obtain ⟨q, hq, hop, -⟩ := h.port1_eq (.inl hw.2.1.1.2)
  exact ⟨q, hq, hop ▸ hw.1⟩

/-! ### Runs -/

theorem log_run {q : MemReq} {n : ℕ} (x : L1d × Numbers) (is : List L1dIn)
    (h : x.2.log[n]? = some q) : (numberedL1d.run x is).2.log[n]? = some q := by
  induction is generalizing x with
  | nil => exact h
  | cons i is ih => exact ih _ (log_grows h)

/-- Request `n` is answered in the cycle after the inputs `js`, in which `i` is on the ports. -/
def AnswersAt (x : L1d × Numbers) (js : List L1dIn) (i : L1dIn) (n : ℕ) : Prop :=
  answeredNumber (numberedL1d.run x js).2 (numberedL1d.run x js).1 i = some n

/-- The answer of that cycle reports a bad address. -/
def badAddrAt (x : L1d × Numbers) (js : List L1dIn) (i : L1dIn) : Bool :=
  ((numberedL1d.run x js).1.ctl i).nCoreMemRsp.badAddr

/-- What is asked of request `n` over the inputs `is`, when it is the one built for the access of
`e`: the answer reports a bad address exactly when the access leaves its line; a request that is
not bad is of the kind of its instruction; a bad one never writes the data RAM. -/
structure BadAddrExact (x : L1d × Numbers) (is : List L1dIn) (n : ℕ) (e : Exec) : Prop where
  crosses : ∀ js i ks, is = js ++ i :: ks → AnswersAt x js i n →
    (badAddrAt x js i = true ↔ e.Crosses)
  request : ∀ js i ks, is = js ++ i :: ks → AnswersAt x js i n → badAddrAt x js i = false →
    e.tMemTail.op ≠ .nop ∧ e.tMemTail.isLoad = isLoadInsn e.memUq.op ∧
      e.tMemTail.isStore = isStoreInsn e.memUq.op
  noWrite : ∀ js i ks, is = js ++ i :: ks → AnswersAt x js i n → badAddrAt x js i = true →
    ∀ js' ks', is = js' ++ ks' → (numberedL1d.run x js').1.tWrArray = true →
      (numberedL1d.run x js').2.port1 ≠ n

variable {x : L1d × Numbers} {is js ks : List L1dIn} {n : ℕ} {e : Exec}

theorem reach_run (hx : numberedL1d.Reach (fun _ _ => True) x) (is : List L1dIn) :
    numberedL1d.Reach (fun _ _ => True) (numberedL1d.run x is) :=
  hx.run (.of_forall (fun _ _ => trivial) x is)

theorem log_run_eq {q r : MemReq} (his : is = js ++ ks)
    (hq : (numberedL1d.run x js).2.log[n]? = some q)
    (hr : (numberedL1d.run x is).2.log[n]? = some r) : q = r := by
  have h := log_run (numberedL1d.run x js) ks hq
  rw [← Machine.run_append, ← his, hr] at h
  exact (Option.some.inj h).symm

/-- In a run the answer to the request of `e` carries its mark. -/
theorem badAddrAt_eq (hx : numberedL1d.Reach (fun _ _ => True) x)
    (hlog : (numberedL1d.run x is).2.log[n]? = some e.tMemTail) (his : is = js ++ i :: ks)
    (ha : AnswersAt x js i n) : badAddrAt x js i = e.tMemTail.spansCacheline := by
  obtain ⟨hnum, hreq⟩ := numbered_of_reach (reach_run hx js)
  obtain ⟨q, hq, hbad, -⟩ := hnum.answered hreq ha
  rw [badAddrAt, hbad, log_run_eq his hq hlog]

/-- **Bad addresses are line crossings exactly when no unsigned load of a halfword has an odd
address inside its line.**  Over every run of the data cache, whatever else is accepted, the request
that the execution unit builds for a load or a store is answered as bad exactly when its bytes leave
the line, is of the kind of its instruction when it is not bad, and never writes the data RAM when it
is, if and only if it is not an LHU at an odd address whose bytes stay inside the line. -/
theorem bad_addr_exact_iff (hx : numberedL1d.Reach (fun _ _ => True) x)
    (hop : isLoadInsn e.memUq.op = true ∨ isStoreInsn e.memUq.op = true)
    (hlog : (numberedL1d.run x is).2.log[n]? = some e.tMemTail)
    (ha : ∃ js i ks, is = js ++ i :: ks ∧ AnswersAt x js i n) :
    BadAddrExact x is n e ↔ ¬(e.OddLhu ∧ ¬e.Crosses) := by
  have hsound := Exec.tMemTail_sound hop
  constructor
  · rintro h ⟨hodd, hin⟩
    obtain ⟨js, i, ks, his, ha⟩ := ha
    have hbad := badAddrAt_eq hx hlog his ha
    rw [hsound.spans.mpr (.inr hodd)] at hbad
    exact hin ((h.crosses js i ks his ha).mp hbad)
  · intro h
    have hspans : e.tMemTail.spansCacheline = true ↔ e.Crosses := by
      rw [hsound.spans]
      constructor
      · rintro (hc | hodd)
        · exact hc
        · by_contra hin
          exact h ⟨hodd, hin⟩
      · exact .inl
    refine ⟨?_, ?_, ?_⟩
    · intro js i ks his ha
      rw [badAddrAt_eq hx hlog his ha, hspans]
    · intro js i ks his ha hb
      rw [badAddrAt_eq hx hlog his ha] at hb
      exact ⟨(hsound.op hb).1, hsound.loads, (hsound.op hb).2⟩
    · intro js i ks his ha hb js' ks' his' hw hn
      rw [badAddrAt_eq hx hlog his ha] at hb
      obtain ⟨q, hq, hst⟩ := (numbered_of_reach (reach_run hx js')).1.writes hw
      rw [hn] at hq
      rw [log_run_eq his' hq hlog, (hsound.bad hb).1] at hst
      cases hst

/-! ### LH and LHU at an odd address -/

/-- Outside ACTIVE no number moves. -/
theorem Numbers.next_quiet (hs : s.rState ≠ .active) : Numbers.next t s i = t := by
  have hq := quiet (i := i) hs
  simp [Numbers.next, hq.coreMemReqAck, hq.tPopMq, hq.tPushMiss]

/-- The first state in ACTIVE, before any request. -/
def numberedReady : L1d × Numbers := (ready, ⟨[], 0, 0, []⟩)

theorem reach_numberedReady : numberedL1d.Reach (fun _ _ => True) numberedReady := by
  have h : ∀ s, l1dMachine.Reach (fun s _ => s.rState ≠ .active) s →
      numberedL1d.Reach (fun _ _ => True) (s, ⟨[], 0, 0, []⟩) := by
    intro s hs
    induction hs with
    | reset h => exact .reset ⟨h, rfl⟩
    | @step s i _ hne ih =>
        have hstep : numberedL1d.step (s, ⟨[], 0, 0, []⟩) i = (s.step i, ⟨[], 0, 0, []⟩) :=
          congrArg (Prod.mk _) (Numbers.next_quiet hne)
        exact hstep ▸ ih.step trivial
  exact h _ (reach_ready fun _ hne => hne)

/-- The execution unit in the cycle that builds the request of an access to address 1. -/
def accessAtOne (op : Opcode) : Exec :=
  { Exec.init with
    memUq := { Uop.zero with op := op, dstValid := true }
    memSrcA := ⟨false, false, false, 1⟩ }

/-- The request is accepted, misses on port 2 and on port 1, and is acknowledged with its line. -/
def missAtOne (op : Opcode) : List L1dIn :=
  [{ L1dIn.idle with coreMemReqValid := true, coreMemReq := (accessAtOne op).tMemTail },
    L1dIn.idle, L1dIn.idle, L1dIn.idle]

def reloadAtOne : L1dIn := { L1dIn.idle with memRspValid := true }

/-- LH at address 1. -/
theorem bad_addr_exact_lh :
    BadAddrExact numberedReady (missAtOne .lh ++ [reloadAtOne]) 0 (accessAtOne .lh) :=
  (bad_addr_exact_iff reach_numberedReady (.inl rfl) (by decide +kernel)
    ⟨missAtOne .lh, reloadAtOne, [], rfl, by unfold AnswersAt; decide +kernel⟩).mpr
      fun h => absurd h.1.1 (by decide)

/-- LHU at address 1 is reported as bad, and does not leave its line. -/
theorem odd_lhu_is_bad :
    ¬∀ x is n e, numberedL1d.Reach (fun _ _ => True) x →
      isLoadInsn e.memUq.op = true ∨ isStoreInsn e.memUq.op = true →
      (numberedL1d.run x is).2.log[n]? = some e.tMemTail →
      (∃ js i ks, is = js ++ i :: ks ∧ AnswersAt x js i n) → BadAddrExact x is n e := by
  intro h
  have hans : AnswersAt numberedReady (missAtOne .lhu) reloadAtOne 0 := by
    unfold AnswersAt
    decide +kernel
  have hexact := h numberedReady (missAtOne .lhu ++ [reloadAtOne]) 0 (accessAtOne .lhu)
    reach_numberedReady (.inl rfl) (by decide +kernel) ⟨missAtOne .lhu, reloadAtOne, [], rfl, hans⟩
  have hbad : badAddrAt numberedReady (missAtOne .lhu) reloadAtOne = true := by decide +kernel
  have hin : ¬(accessAtOne .lhu).Crosses := by
    unfold Exec.Crosses
    decide
  exact hin ((hexact.crosses _ _ [] rfl hans).mp hbad)

end L1d
end Rv32Core
