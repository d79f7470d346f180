import Mathlib.Order.Nat
import Mathlib.Tactic.Common

/-! # Requests and their answers

A client raises `req` for one cycle and waits; `rsp` answers it.  The first part is about one
cycle: an outstanding request is in exactly one of three places, asked for, being served or
answered.  The second part is about whole runs: when at most one request is outstanding and no
answer comes unasked, answers and requests correspond one to one.  The last part is about two
clients that are served in turns. -/

namespace Handshake

/-! ### One cycle -/

/-- An outstanding request is asked for, being served or answered, and only one of these. -/
structure Ok (out asked serving answered : Prop) : Prop where
  out_iff : out ↔ asked ∨ serving ∨ answered
  asked_serving : ¬(asked ∧ serving)
  asked_answered : ¬(asked ∧ answered)
  serving_answered : ¬(serving ∧ answered)

theorem Ok.initial : Ok False False False False := ⟨by simp, by simp, by simp, by simp⟩

/-- One cycle: a pulse is latched until it is granted, a granted request is served (or answered
at once, `early`) and served until it is `done`. -/
theorem Ok.next {out asked serving answered out' asked' serving' answered' : Prop}
    (pulse gnt early done : Prop) (h : Ok out asked serving answered)
    (hone : pulse → ¬(out ∧ ¬answered)) (hgnt : gnt → asked ∨ pulse)
    (hout : out' ↔ pulse ∨ (out ∧ ¬answered)) (hasked : asked' ↔ (asked ∨ pulse) ∧ ¬gnt)
    (hserving : serving' ↔ (serving ∧ ¬done) ∨ (gnt ∧ ¬early))
    (hanswered : answered' ↔ (serving ∧ done) ∨ (gnt ∧ early)) :
    Ok out' asked' serving' answered' := by
  obtain ⟨h1, h2, h3, h4⟩ := h
  -- a pulse finds the client idle or just answered
  have hidle : pulse → ¬asked ∧ ¬serving := fun hp =>
    ⟨fun ha => hone hp ⟨h1.mpr (.inl ha), fun hr => h3 ⟨ha, hr⟩⟩,
      fun hs => hone hp ⟨h1.mpr (.inr (.inl hs)), fun hr => h4 ⟨hs, hr⟩⟩⟩
  constructor
  · rw [hout, hasked, hserving, hanswered]
    grind
  · rw [hasked, hserving]
    grind
  · rw [hasked, hanswered]
    grind
  · rw [hserving, hanswered]
    grind

/-- A request that is asked for is raised in this cycle or outstanding. -/
theorem Ok.now {out asked serving answered pulse : Prop} (h : Ok out asked serving answered)
    (ha : asked ∨ pulse) : pulse ∨ (out ∧ ¬answered) := by
  rcases ha with ha | hp
  · exact .inr ⟨h.out_iff.mpr (.inl ha), fun hr => h.asked_answered ⟨ha, hr⟩⟩
  · exact .inl hp

/-! ### Whole runs -/

variable {req rsp out : ℕ → Prop}

/-- The answer in cycle `u` is the answer to the request of cycle `t`: there is no other
request or answer between them. -/
def Answers (req rsp : ℕ → Prop) (t u : ℕ) : Prop :=
  t < u ∧ req t ∧ rsp u ∧ ∀ v, t < v → v < u → ¬req v ∧ ¬rsp v

theorem Answers.right_unique {t u u' : ℕ} (h : Answers req rsp t u) (h' : Answers req rsp t u') :
    u = u' := by
  rcases Nat.lt_trichotomy u u' with hlt | heq | hgt
  · exact ((h'.2.2.2 u h.1 hlt).2 h.2.2.1).elim
  · exact heq
  · exact ((h.2.2.2 u' h'.1 hgt).2 h'.2.2.1).elim

theorem Answers.left_unique {t t' u : ℕ} (h : Answers req rsp t u) (h' : Answers req rsp t' u) :
    t = t' := by
  rcases Nat.lt_trichotomy t t' with hlt | heq | hgt
  · exact ((h.2.2.2 t' hlt h'.1).1 h'.2.1).elim
  · exact heq
  · exact ((h'.2.2.2 t hgt h.1).1 h.2.1).elim

/-- The rules of a link with one outstanding request. -/
structure Link (req rsp out : ℕ → Prop) : Prop where
  start : ¬out 0
  next : ∀ t, out (t + 1) ↔ req t ∨ (out t ∧ ¬rsp t)
  one : ∀ t, req t → ¬(out t ∧ ¬rsp t)
  asked : ∀ t, rsp t → out t

namespace Link

variable (L : Link req rsp out)

include L

theorem exists_req {u : ℕ} (h : out u) : ∃ t < u, req t ∧ ∀ v, t < v → v < u → ¬req v ∧ ¬rsp v := by
  induction u with
  | zero => exact (L.start h).elim
  | succ u ih =>
      rcases (L.next u).mp h with hreq | ⟨hout, hno⟩
      · exact ⟨u, by omega, hreq, fun v hv hu => by omega⟩
      · obtain ⟨t, ht, hr, hq⟩ := ih hout
        refine ⟨t, by omega, hr, fun v hv hu => ?_⟩
        rcases Nat.lt_succ_iff_lt_or_eq.mp hu with hlt | rfl
        · exact hq v hv hlt
        · exact ⟨fun hr' => L.one v hr' ⟨hout, hno⟩, hno⟩

/-- **No answer comes unasked**, and each answers one request. -/
theorem answer_unique {u : ℕ} (h : rsp u) : ∃! t, Answers req rsp t u := by
  obtain ⟨t, ht, hr, hq⟩ := L.exists_req (L.asked u h)
  exact ⟨t, ⟨ht, hr, h, hq⟩, fun t' h' => h'.left_unique ⟨ht, hr, h, hq⟩⟩

theorem stays {t u : ℕ} (h : req t) (htu : t < u) (hno : ∀ v, t < v → v < u → ¬rsp v) : out u := by
  induction u, htu using Nat.le_induction with
  | base => exact (L.next t).mpr (.inl h)
  | succ u htu ih =>
      refine (L.next u).mpr (.inr ⟨ih fun v hv hu => hno v hv (by omega), hno u htu (by omega)⟩)

/-- **A request that meets an answer has exactly one.** -/
theorem request_unique {t : ℕ} (h : req t) (hex : ∃ u, t < u ∧ rsp u) :
    ∃! u, Answers req rsp t u := by
  classical
  obtain ⟨hlt, hrsp⟩ := Nat.find_spec hex
  have hno : ∀ v, t < v → v < Nat.find hex → ¬rsp v :=
    fun v hv hu hr => Nat.find_min hex hu ⟨hv, hr⟩
  have hu : Answers req rsp t (Nat.find hex) := by
    refine ⟨hlt, h, hrsp, fun v hv hu => ⟨fun hr => ?_, hno v hv hu⟩⟩
    exact L.one v hr ⟨L.stays h hv fun w hw hwv => hno w hw (by omega), hno v hv hu⟩
  exact ⟨_, hu, fun u' h' => h'.right_unique hu⟩

end Link

/-! ### Turns -/

/-- A client of a server of two: in a `slot` one of those that want to is served, and after the
other one it is this client's turn. -/
structure Turns (slot want gnt other turn : ℕ → Prop) : Prop where
  again : ∀ n, ∃ m ≥ n, slot m
  waits : ∀ k, want k → ¬gnt k → want (k + 1)
  serves : ∀ k, slot k → want k → gnt k ∨ other k
  mine : ∀ k, slot k → want k → turn k → gnt k
  handed : ∀ k, other k → ¬gnt k → turn (k + 1)
  stays : ∀ k, turn k → ¬gnt k → turn (k + 1)

/-- **Who waits for a turn is served**, in the first slot or in the second. -/
theorem Turns.exists_gnt {slot want gnt other turn : ℕ → Prop} (h : Turns slot want gnt other turn)
    {n : ℕ} (hn : want n) : ∃ m ≥ n, gnt m := by
  by_contra hno
  push Not at hno
  have hwait : ∀ k ≥ n, want k := fun k hk => by
    induction k, hk using Nat.le_induction with
    | base => exact hn
    | succ k hk ih => exact h.waits k ih (hno k hk)
  obtain ⟨m₁, hm₁, hs₁⟩ := h.again n
  have ho := (h.serves m₁ hs₁ (hwait m₁ hm₁)).resolve_left (hno m₁ hm₁)
  have hturn : ∀ k, m₁ < k → turn k := fun k hk => by
    induction k, hk using Nat.le_induction with
    | base => exact h.handed m₁ ho (hno m₁ hm₁)
    | succ k hk ih => exact h.stays k ih (hno k (by omega))
  obtain ⟨m₂, hm₂, hs₂⟩ := h.again (m₁ + 1)
  exact hno m₂ (by omega) (h.mine m₂ hs₂ (hwait m₂ (by omega)) (hturn m₂ hm₂))

end Handshake
