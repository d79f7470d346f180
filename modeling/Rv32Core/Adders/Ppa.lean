import Rv32Core.Adders.Rca
import Rv32Core.Exec.Alu

/-! # The parallel-prefix generator

`gen_ppa.write_rtl`: a propagate and a generate wire for each bit, then `lg_bits` levels that join
the groups at distance `2 ^ l`, then the sum.  A wire of a group carries the names of its bits, the
highest first, so its name says what it is: the names are the windows of the same network that the
values are, over the operation that joins names.

The module is well formed for every `lg_bits`, its output is the sum modulo `2 ^ bits`, and so it
is the ripple-carry adder of that many bits. -/

namespace Rv32Core.Adders

open Netlist PrefixScan

/-- `n + '_' + m`. -/
def join (n m : String) : String := n ++ "_" ++ m

/-- `l[i]`. -/
def nth (l : List String) (i : ℕ) : String := l.getD i ""

/-- The lists `pp` and `gg`. -/
structure Names where
  pp : List String
  gg : List String

/-- `pp_<i>`. -/
def ppName (i : ℕ) : String := "pp_" ++ toString i

/-- `gg_<i>`. -/
def ggName (i : ℕ) : String := "gg_" ++ toString i

/-- The first level of propagate and generate. -/
def firstItems (i : ℕ) : List Item :=
  [Item.wire (ppName i) (.xor (a i) (b i)), Item.wire (ggName i) (.and (a i) (b i))]

/-- `tpp` of `pp`, and `tgg` of `gg`. -/
def nextNames (bits d : ℕ) (l : List String) : List String :=
  (List.range bits).map fun i => if d ≤ i then join (nth l i) (nth l (i - d)) else nth l i

/-- What the loop over the bits writes for bit `i`. -/
def levelItems (d : ℕ) (s : Names) (i : ℕ) : List Item :=
  if d ≤ i then
    [Item.wire (join (nth s.pp i) (nth s.pp (i - d)))
        (.and (.wire (nth s.pp i)) (.wire (nth s.pp (i - d)))),
      Item.wire (join (nth s.gg i) (nth s.gg (i - d)))
        (.or (.and (.wire (nth s.gg (i - d))) (.wire (nth s.pp i))) (.wire (nth s.gg i)))]
  else []

/-- The lists before level `l`. -/
def names (bits : ℕ) : ℕ → Names
  | 0 => ⟨(List.range bits).map ppName, (List.range bits).map ggName⟩
  | l + 1 => ⟨nextNames bits (2 ^ l) (names bits l).pp, nextNames bits (2 ^ l) (names bits l).gg⟩

/-- What is written before level `l`. -/
def prefixItems (bits : ℕ) : ℕ → List Item
  | 0 => (List.range bits).flatMap firstItems
  | l + 1 => prefixItems bits l ++ (List.range bits).flatMap (levelItems (2 ^ l) (names bits l))

/-- The assignments to `Y`, from the first propagates `p` and the last generates `gg`. -/
def sumItems (bits : ℕ) (p gg : List String) : List Item :=
  Item.assign 0 (.wire (nth p 0)) ::
    (List.range' 1 (bits - 1)).map fun i =>
      Item.assign i (.xor (.wire (nth p i)) (.wire (nth gg (i - 1))))

/-- `gen_ppa.write_rtl`. -/
def ppa (lgBits : ℕ) : Module where
  name := "ppa" ++ toString (2 ^ lgBits)
  bits := 2 ^ lgBits
  items := prefixItems (2 ^ lgBits) lgBits ++
    sumItems (2 ^ lgBits) (names (2 ^ lgBits) 0).pp (names (2 ^ lgBits) lgBits).gg

example : (ppa 1).items.map itemText =
    ["wire pp_0 = A[0] ^ B[0];\n", "wire gg_0 = A[0] & B[0];\n",
      "wire pp_1 = A[1] ^ B[1];\n", "wire gg_1 = A[1] & B[1];\n",
      "wire pp_1_pp_0 = pp_1 & pp_0;\n", "wire gg_1_gg_0 = (gg_0 & pp_1) | gg_1;\n",
      "assign Y[0] = pp_0;\n", "assign Y[1] = pp_1 ^ gg_0;\n"] := by
  decide +kernel

/-! ### The names -/

instance : Std.Associative join where
  assoc n m k := by simp only [join, String.append_assoc]

variable {bits : ℕ}

theorem nth_map_range (f : ℕ → String) {i : ℕ} (hi : i < bits) :
    nth ((List.range bits).map f) i = f i := by
  simp [nth, List.getD_eq_getElem?_getD, hi]

theorem nth_nextNames (d : ℕ) (l : List String) {i : ℕ} (hi : i < bits) :
    nth (nextNames bits d l) i = level join d (nth l) i := nth_map_range _ hi

theorem level_nth_eq {f : ℕ → String} {l : ℕ} {s : List String}
    (h : ∀ i < bits, nth s i = network join f l i) {i : ℕ} (hi : i < bits) :
    nth (nextNames bits (2 ^ l) s) i = network join f (l + 1) i := by
  have hd : i - 2 ^ l < bits := Nat.lt_of_le_of_lt (Nat.sub_le i _) hi
  rw [nth_nextNames _ _ hi, network, level, level, h i hi, h (i - 2 ^ l) hd]

theorem nth_pp (l : ℕ) {i : ℕ} (hi : i < bits) :
    nth (names bits l).pp i = network join ppName l i := by
  induction l generalizing i with
  | zero => exact nth_map_range ppName hi
  | succ l ih => exact level_nth_eq (fun _ hj => ih hj) hi

theorem nth_gg (l : ℕ) {i : ℕ} (hi : i < bits) :
    nth (names bits l).gg i = network join ggName l i := by
  induction l generalizing i with
  | zero => exact nth_map_range ggName hi
  | succ l ih => exact level_nth_eq (fun _ hj => ih hj) hi

/-- The name of a group: the names of its bits behind one tag. -/
def groupName (tag : String) (i c : ℕ) : String := window join (fun j => tag ++ toString j) i c

theorem network_pp (l i : ℕ) : network join ppName l i = groupName "pp_" i (reach l i) :=
  network_eq join ppName l i

theorem network_gg (l i : ℕ) : network join ggName l i = groupName "gg_" i (reach l i) :=
  network_eq join ggName l i

theorem groupName_toList (tag : String) (i c : ℕ) : ∃ r : List Char,
    (groupName tag i c).toList = tag.toList ++ (Nat.toDigits 10 i ++ r) ∧
      (r = [] ∨ ∃ r', r = '_' :: r') := by
  induction c with
  | zero =>
      refine ⟨[], ?_, Or.inl rfl⟩
      simp only [groupName, window, String.toList_append, Nat.toString_eq_repr, Nat.toList_repr,
        List.append_nil]
  | succ c ih =>
      obtain ⟨r, hr, hu⟩ := ih
      have hj : (groupName tag i (c + 1)).toList = (groupName tag i c).toList ++
          '_' :: (tag ++ toString (i - (c + 1))).toList := by
        simp only [groupName, window, join, String.toList_append, List.append_assoc]
        rfl
      refine ⟨r ++ '_' :: (tag ++ toString (i - (c + 1))).toList, ?_, Or.inr ?_⟩
      · rw [hj, hr]
        simp only [List.append_assoc]
      · rcases hu with rfl | ⟨r', rfl⟩
        · exact ⟨_, rfl⟩
        · exact ⟨_, rfl⟩

theorem takeWhile_digits {i : ℕ} {r : List Char} (h : r = [] ∨ ∃ r', r = '_' :: r') :
    (Nat.toDigits 10 i ++ r).takeWhile (· != '_') = Nat.toDigits 10 i := by
  have hd : ∀ c ∈ Nat.toDigits 10 i, (c != '_') = true := by
    intro c hc
    rw [bne_iff_ne]
    rintro rfl
    exact Nat.underscore_not_in_toDigits hc
  rw [List.takeWhile_append_of_pos hd]
  rcases h with rfl | ⟨r', rfl⟩
  · exact List.append_nil _
  · exact List.append_nil _

theorem length_groupName_lt (tag : String) (i : ℕ) {c c' : ℕ} (h : c < c') :
    (groupName tag i c).length < (groupName tag i c').length := by
  induction c' with
  | zero => exact absurd h (Nat.not_lt_zero c)
  | succ c' ih =>
      have hs : (groupName tag i c').length < (groupName tag i (c' + 1)).length := by
        have hj : groupName tag i (c' + 1) =
            groupName tag i c' ++ "_" ++ (tag ++ toString (i - (c' + 1))) := rfl
        have h1 : ("_" : String).length = 1 := rfl
        rw [hj, String.length_append, String.length_append, h1]
        omega
      rcases Nat.lt_succ_iff_lt_or_eq.mp h with hlt | rfl
      · exact Nat.lt_trans (ih hlt) hs
      · exact hs

/-- **A name determines its group.** -/
theorem groupName_inj {tag tag' : String} (ht : tag.length = tag'.length) {i i' c c' : ℕ}
    (h : groupName tag i c = groupName tag' i' c') : tag = tag' ∧ i = i' ∧ c = c' := by
  obtain ⟨r, hr, hu⟩ := groupName_toList tag i c
  obtain ⟨r', hr', hu'⟩ := groupName_toList tag' i' c'
  have hl : tag.toList ++ (Nat.toDigits 10 i ++ r) = tag'.toList ++ (Nat.toDigits 10 i' ++ r') := by
    rw [← hr, ← hr', h]
  obtain ⟨h1, h2⟩ := List.append_inj hl (by simpa only [String.length_toList] using ht)
  have hi : i = i' := by
    apply toDigits_inj
    rw [← takeWhile_digits hu, ← takeWhile_digits (i := i') hu', h2]
  have htag : tag = tag' := String.toList_injective h1
  subst hi htag
  refine ⟨rfl, rfl, ?_⟩
  rcases Nat.lt_trichotomy c c' with hlt | heq | hgt
  · exact absurd (congrArg String.length h) (Nat.ne_of_lt (length_groupName_lt tag i hlt))
  · exact heq
  · exact absurd (congrArg String.length h) (Nat.ne_of_gt (length_groupName_lt tag i hgt))

/-! ### Well-formedness -/

/-- The wires that bit `i` declares at some level. -/
def Declares (it : List Item) (i c : ℕ) : Prop :=
  declared it = [groupName "pp_" i c, groupName "gg_" i c] ∧ driven it = []

theorem declares_firstItems (i : ℕ) : Declares (firstItems i) i 0 := ⟨rfl, rfl⟩

/-- The bits of a level declare groups of more than `lo` and at most `hi` bits, or nothing. -/
def Groups (bits lo hi : ℕ) (f : ℕ → List Item) : Prop :=
  ∀ i < bits, f i = [] ∨ ∃ c, lo ≤ c ∧ c < hi ∧ Declares (f i) i c

theorem groups_firstItems (bits : ℕ) : Groups bits 0 1 firstItems :=
  fun i _ => Or.inr ⟨0, Nat.le_refl 0, Nat.zero_lt_one, declares_firstItems i⟩

/-- A level declares the groups that see more bits than before. -/
theorem groups_levelItems (bits l : ℕ) :
    Groups bits (2 ^ l) (2 ^ (l + 1)) (levelItems (2 ^ l) (names bits l)) := by
  intro i hi
  have hd : i - 2 ^ l < bits := Nat.lt_of_le_of_lt (Nat.sub_le i _) hi
  by_cases h : 2 ^ l ≤ i
  · have hp : join (nth (names bits l).pp i) (nth (names bits l).pp (i - 2 ^ l)) =
        groupName "pp_" i (reach (l + 1) i) := by
      rw [nth_pp l hi, nth_pp l hd, ← network_pp, network, level, if_pos h]
    have hg : join (nth (names bits l).gg i) (nth (names bits l).gg (i - 2 ^ l)) =
        groupName "gg_" i (reach (l + 1) i) := by
      rw [nth_gg l hi, nth_gg l hd, ← network_gg, network, level, if_pos h]
    have hpow : 2 ^ (l + 1) = 2 * 2 ^ l := Nat.pow_succ'
    have h0 : 0 < 2 ^ l := Nat.two_pow_pos l
    have hr : reach (l + 1) i = min (2 ^ (l + 1) - 1) i := rfl
    refine Or.inr ⟨reach (l + 1) i, by omega, by omega, ?_⟩
    rw [levelItems, if_pos h, hp, hg]
    exact ⟨rfl, rfl⟩
  · exact Or.inl (if_neg h)

section Groups

variable {lo hi : ℕ} {f : ℕ → List Item}

theorem declared_flatMap (f : ℕ → List Item) (l : List ℕ) :
    declared (l.flatMap f) = l.flatMap fun i => declared (f i) := List.flatMap_assoc

theorem Groups.mem (h : Groups bits lo hi f) {i : ℕ} (hi' : i < bits) {n : String}
    (hn : n ∈ declared (f i)) :
    ∃ tag c, (tag = "pp_" ∨ tag = "gg_") ∧ lo ≤ c ∧ c < hi ∧ n = groupName tag i c := by
  rcases h i hi' with he | ⟨c, hlo, hhi, hd⟩
  · rw [he] at hn
    exact absurd hn List.not_mem_nil
  · rw [hd.1] at hn
    rcases List.mem_cons.mp hn with rfl | hn
    · exact ⟨_, c, Or.inl rfl, hlo, hhi, rfl⟩
    · exact ⟨_, c, Or.inr rfl, hlo, hhi, List.mem_singleton.mp hn⟩

theorem length_tag {tag : String} (h : tag = "pp_" ∨ tag = "gg_") : tag.length = 3 := by
  rcases h with rfl | rfl <;> rfl

theorem Groups.nodup (h : Groups bits lo hi f) :
    (declared ((List.range bits).flatMap f)).Nodup := by
  rw [declared_flatMap, List.nodup_flatMap]
  constructor
  · intro i hi'
    rcases h i (List.mem_range.mp hi') with he | ⟨c, -, -, hd⟩
    · rw [he]
      exact List.nodup_nil
    · rw [hd.1]
      refine List.nodup_cons.mpr ⟨fun hm => ?_, List.nodup_singleton _⟩
      have he := List.mem_singleton.mp hm
      exact absurd (groupName_inj (by rfl) he).1 (by decide)
  · refine List.Nodup.pairwise_of_forall_ne List.nodup_range fun i hi' j hj hij n hn hm => ?_
    obtain ⟨tag, c, ht, -, -, rfl⟩ := h.mem (List.mem_range.mp hi') hn
    obtain ⟨tag', c', ht', -, -, he⟩ := h.mem (List.mem_range.mp hj) hm
    exact hij (groupName_inj ((length_tag ht).trans (length_tag ht').symm) he).2.1

theorem Groups.mem_level (h : Groups bits lo hi f) {n : String}
    (hn : n ∈ declared ((List.range bits).flatMap f)) : ∃ tag i c,
    (tag = "pp_" ∨ tag = "gg_") ∧ lo ≤ c ∧ c < hi ∧ n = groupName tag i c := by
  rw [declared_flatMap] at hn
  obtain ⟨i, hi', hn⟩ := List.mem_flatMap.mp hn
  obtain ⟨tag, c, hc⟩ := h.mem (List.mem_range.mp hi') hn
  exact ⟨tag, i, c, hc⟩

theorem Groups.driven (h : Groups bits lo hi f) :
    driven ((List.range bits).flatMap f) = [] := by
  refine List.flatMap_eq_nil_iff.mpr fun it hit => ?_
  obtain ⟨i, hi', hit⟩ := List.mem_flatMap.mp hit
  rcases h i (List.mem_range.mp hi') with he | ⟨c, -, -, hd⟩
  · rw [he] at hit
    exact absurd hit List.not_mem_nil
  · exact List.flatMap_eq_nil_iff.mp hd.2 it hit

end Groups

/-- Before level `l` the groups of at most `2 ^ l` bits are declared. -/
theorem mem_declared_prefixItems {l : ℕ} {n : String} (hn : n ∈ declared (prefixItems bits l)) :
    ∃ tag i c, (tag = "pp_" ∨ tag = "gg_") ∧ c < 2 ^ l ∧ n = groupName tag i c := by
  induction l with
  | zero =>
      obtain ⟨tag, i, c, ht, -, hc, he⟩ := (groups_firstItems bits).mem_level hn
      exact ⟨tag, i, c, ht, hc, he⟩
  | succ l ih =>
      rw [prefixItems, declared_append] at hn
      rcases List.mem_append.mp hn with hn | hn
      · obtain ⟨tag, i, c, ht, hc, he⟩ := ih hn
        have hpow : 2 ^ (l + 1) = 2 * 2 ^ l := Nat.pow_succ'
        exact ⟨tag, i, c, ht, by omega, he⟩
      · obtain ⟨tag, i, c, ht, -, hc, he⟩ := (groups_levelItems bits l).mem_level hn
        exact ⟨tag, i, c, ht, hc, he⟩

theorem nodup_prefixItems (bits l : ℕ) : (declared (prefixItems bits l)).Nodup := by
  induction l with
  | zero => exact (groups_firstItems bits).nodup
  | succ l ih =>
      rw [prefixItems, declared_append]
      refine List.nodup_append.mpr ⟨ih, (groups_levelItems bits l).nodup, fun n hn m hm he => ?_⟩
      obtain ⟨tag, i, c, ht, hc, rfl⟩ := mem_declared_prefixItems hn
      obtain ⟨tag', i', c', ht', hc', -, rfl⟩ := (groups_levelItems bits l).mem_level hm
      have hcc := (groupName_inj ((length_tag ht).trans (length_tag ht').symm) he).2.2
      omega

theorem driven_prefixItems (bits l : ℕ) : driven (prefixItems bits l) = [] := by
  induction l with
  | zero => exact (groups_firstItems bits).driven
  | succ l ih => rw [prefixItems, driven_append, ih, (groups_levelItems bits l).driven]; rfl

theorem names_declared (l : ℕ) {i : ℕ} (hi : i < bits) :
    nth (names bits l).pp i ∈ declared (prefixItems bits l) ∧
      nth (names bits l).gg i ∈ declared (prefixItems bits l) := by
  induction l with
  | zero =>
      rw [nth_pp 0 hi, nth_gg 0 hi, prefixItems, declared_flatMap]
      exact ⟨List.mem_flatMap.mpr ⟨i, List.mem_range.mpr hi, .head _⟩,
        List.mem_flatMap.mpr ⟨i, List.mem_range.mpr hi, .tail _ (.head _)⟩⟩
  | succ l ih =>
      rw [prefixItems, declared_append, declared_flatMap, names, nth_nextNames _ _ hi,
        nth_nextNames _ _ hi, level, level]
      by_cases h : 2 ^ l ≤ i
      · have hd : declared (levelItems (2 ^ l) (names bits l) i) =
            [join (nth (names bits l).pp i) (nth (names bits l).pp (i - 2 ^ l)),
              join (nth (names bits l).gg i) (nth (names bits l).gg (i - 2 ^ l))] := by
          rw [levelItems, if_pos h]
          rfl
        rw [if_pos h, if_pos h]
        refine ⟨List.mem_append_right _ (List.mem_flatMap.mpr ⟨i, List.mem_range.mpr hi, ?_⟩),
          List.mem_append_right _ (List.mem_flatMap.mpr ⟨i, List.mem_range.mpr hi, ?_⟩)⟩
        · rw [hd]
          exact .head _
        · rw [hd]
          exact .tail _ (.head _)
      · rw [if_neg h, if_neg h]
        exact ⟨List.mem_append_left _ ih.1, List.mem_append_left _ ih.2⟩

theorem prefixItems_sub {l k : ℕ} (h : l ≤ k) : ∀ it ∈ prefixItems bits l, it ∈ prefixItems bits k := by
  induction k with
  | zero =>
      rw [Nat.le_zero.mp h]
      exact fun _ hit => hit
  | succ k ih =>
      rcases Nat.le_succ_iff.mp h with hk | rfl
      · exact fun it hit => List.mem_append_left _ (ih hk it hit)
      · exact fun _ hit => hit

theorem usesDeclared_prefixItems (bits l : ℕ) : UsesDeclared [] (prefixItems bits l) := by
  induction l with
  | zero =>
      refine usesDeclared_of_forall fun it hit n hn => ?_
      obtain ⟨i, -, hit⟩ := List.mem_flatMap.mp hit
      rcases List.mem_cons.mp hit with rfl | hit
      · exact hn
      · rw [List.mem_singleton.mp hit] at hn
        exact hn
  | succ l ih =>
      rw [prefixItems, usesDeclared_append]
      refine ⟨ih, usesDeclared_of_forall fun it hit n hn => ?_⟩
      obtain ⟨i, hi, hit⟩ := List.mem_flatMap.mp hit
      have hi' := List.mem_range.mp hi
      have hd : i - 2 ^ l < bits := Nat.lt_of_le_of_lt (Nat.sub_le i _) hi'
      obtain ⟨hp, hg⟩ := names_declared l hi'
      obtain ⟨hp', hg'⟩ := names_declared l hd
      rw [List.nil_append]
      rw [levelItems] at hit
      split_ifs at hit with h
      · rcases List.mem_cons.mp hit with rfl | hit
        · rcases List.mem_append.mp hn with hn | hn <;> rw [List.mem_singleton.mp hn] <;> assumption
        · rw [List.mem_singleton.mp hit] at hn
          rcases List.mem_append.mp hn with hn | hn
          · rcases List.mem_append.mp hn with hn | hn <;> rw [List.mem_singleton.mp hn] <;>
              assumption
          · rw [List.mem_singleton.mp hn]
            exact hg
      · exact absurd hit List.not_mem_nil

/-- Only the first level reads the ports. -/
theorem reads_prefixItems (l : ℕ) :
    ∀ it ∈ prefixItems bits l, ∀ pi ∈ it.expr.inputs, pi.2 < bits := by
  induction l with
  | zero =>
      intro it hit pi hpi
      obtain ⟨i, hi, hit⟩ := List.mem_flatMap.mp hit
      have h : pi = (.A, i) ∨ pi = (.B, i) := by
        rcases List.mem_cons.mp hit with rfl | hit
        · simpa [Item.expr, Netlist.Expr.inputs, a, b] using hpi
        · rw [List.mem_singleton.mp hit] at hpi
          simpa [Item.expr, Netlist.Expr.inputs, a, b] using hpi
      rcases h with rfl | rfl <;> exact List.mem_range.mp hi
  | succ l ih =>
      intro it hit pi hpi
      rcases List.mem_append.mp hit with hit | hit
      · exact ih it hit pi hpi
      · obtain ⟨i, -, hit⟩ := List.mem_flatMap.mp hit
        rw [levelItems] at hit
        split_ifs at hit with h
        · rcases List.mem_cons.mp hit with rfl | hit
          · exact absurd hpi List.not_mem_nil
          · rw [List.mem_singleton.mp hit] at hpi
            exact absurd hpi List.not_mem_nil
        · exact absurd hit List.not_mem_nil

theorem mem_sumItems {p gg : List String} {it : Item} (h : it ∈ sumItems bits p gg) :
    it = Item.assign 0 (.wire (nth p 0)) ∨ ∃ i, 0 < i ∧ i < bits ∧
      it = Item.assign i (.xor (.wire (nth p i)) (.wire (nth gg (i - 1)))) := by
  rcases List.mem_cons.mp h with rfl | h
  · exact Or.inl rfl
  · obtain ⟨i, hi, rfl⟩ := List.mem_map.mp h
    rw [List.mem_range'_1] at hi
    exact Or.inr ⟨i, by omega, by omega, rfl⟩

theorem declared_sumItems (p gg : List String) : declared (sumItems bits p gg) = [] := by
  refine List.flatMap_eq_nil_iff.mpr fun it hit => ?_
  rcases mem_sumItems hit with rfl | ⟨i, -, -, rfl⟩ <;> rfl

theorem driven_sumItems (h : 0 < bits) (p gg : List String) :
    driven (sumItems bits p gg) = List.range bits := by
  obtain ⟨k, rfl⟩ : ∃ k, bits = k + 1 := ⟨bits - 1, by omega⟩
  have hm : ∀ l : List ℕ, driven (l.map fun i => (Item.assign i
      (.xor (.wire (nth p i)) (.wire (nth gg (i - 1)))) : Item)) = l := by
    intro l
    induction l with
    | nil => rfl
    | cons i l ih => exact congrArg (i :: ·) ih
  have hs : driven (sumItems (k + 1) p gg) = 0 :: List.range' 1 k := congrArg (0 :: ·) (hm _)
  rw [hs, List.range_eq_range', List.range'_succ]

theorem groupName_ne_port {tag : String} (ht : tag = "pp_" ∨ tag = "gg_") (i c : ℕ) :
    groupName tag i c ∉ ["A", "B", "Y"] := by
  obtain ⟨r, hr, -⟩ := groupName_toList tag i c
  have hl : 3 ≤ (groupName tag i c).length := by
    rw [← String.length_toList, hr, List.length_append, String.length_toList, length_tag ht]
    exact Nat.le_add_right 3 _
  intro h
  simp only [List.mem_cons, List.not_mem_nil, or_false] at h
  rcases h with h | h | h <;> rw [h] at hl <;> revert hl <;> decide

/-- **Every wire of the parallel-prefix adder is declared once and before its use.** -/
theorem ppa_wellFormed (lgBits : ℕ) : (ppa lgBits).WellFormed where
  once := by
    show (["A", "B", "Y"] ++ declared (prefixItems (2 ^ lgBits) lgBits ++ sumItems _ _ _)).Nodup
    rw [declared_append, declared_sumItems, List.append_nil]
    refine List.nodup_append.mpr ⟨by decide, nodup_prefixItems _ _, fun p hp q hq he => ?_⟩
    obtain ⟨tag, i, c, ht, -, rfl⟩ := mem_declared_prefixItems hq
    exact groupName_ne_port ht i c (he ▸ hp)
  before := by
    refine usesDeclared_append.mpr ⟨usesDeclared_prefixItems _ _, ?_⟩
    refine usesDeclared_of_forall fun it hit n hn => ?_
    have h0 : 0 < 2 ^ lgBits := Nat.two_pow_pos lgBits
    -- the first propagates are still declared
    have hp : ∀ i < 2 ^ lgBits, nth (names (2 ^ lgBits) 0).pp i ∈
        declared (prefixItems (2 ^ lgBits) lgBits) := by
      intro i hi
      obtain ⟨it, hit, hm⟩ := List.mem_flatMap.mp (names_declared 0 hi).1
      exact List.mem_flatMap.mpr ⟨it, prefixItems_sub (Nat.zero_le lgBits) it hit, hm⟩
    rw [List.nil_append]
    rcases mem_sumItems hit with rfl | ⟨i, -, hi, rfl⟩
    · rw [List.mem_singleton.mp hn]
      exact hp 0 h0
    · rcases List.mem_append.mp hn with hn | hn <;> rw [List.mem_singleton.mp hn]
      · exact hp i hi
      · exact (names_declared lgBits (by omega)).2
  reads := by
    intro it hit pi hpi
    rcases List.mem_append.mp hit with hit | hit
    · exact reads_prefixItems lgBits it hit pi hpi
    · rcases mem_sumItems hit with rfl | ⟨i, -, -, rfl⟩ <;> exact absurd hpi List.not_mem_nil
  drives := by
    show driven (prefixItems (2 ^ lgBits) lgBits ++ sumItems _ _ _) = _
    rw [driven_append, driven_prefixItems, driven_sumItems (Nat.two_pow_pos lgBits)]
    rfl

/-! ### The sum -/

section Sum

variable {lgBits : ℕ} {A B Y : BitVec (2 ^ lgBits)} {ρ : String → Bool}

/-- **A group's wires are its generate and its propagate.** -/
theorem ppa_group (hs : (ppa lgBits).Solves A B Y ρ) {l i : ℕ} (hl : l ≤ lgBits)
    (hi : i < 2 ^ lgBits) :
    (ρ (nth (names (2 ^ lgBits) l).gg i), ρ (nth (names (2 ^ lgBits) l).pp i)) =
      network carryOp (carryBit A B) l i := by
  have hsub : ∀ it ∈ prefixItems (2 ^ lgBits) l, it.Holds (Module.inputs A B) ρ Y.getLsbD :=
    fun it hit => hs it (List.mem_append_left _ (prefixItems_sub hl it hit))
  induction l generalizing i with
  | zero =>
      have hp := hsub (Item.wire (ppName i) (.xor (a i) (b i)))
        (List.mem_flatMap.mpr ⟨i, List.mem_range.mpr hi, .head _⟩)
      have hg := hsub (Item.wire (ggName i) (.and (a i) (b i)))
        (List.mem_flatMap.mpr ⟨i, List.mem_range.mpr hi, .tail _ (.head _)⟩)
      rw [nth_gg 0 hi, nth_pp 0 hi]
      exact Prod.ext hg hp
  | succ l ih =>
      have hsub' : ∀ it ∈ prefixItems (2 ^ lgBits) l,
          it.Holds (Module.inputs A B) ρ Y.getLsbD :=
        fun it hit => hsub it (List.mem_append_left _ hit)
      have hd : i - 2 ^ l < 2 ^ lgBits := Nat.lt_of_le_of_lt (Nat.sub_le i _) hi
      have hhi := ih (by omega) hi hsub'
      have hlo := ih (by omega) hd hsub'
      rw [names, nth_nextNames _ _ hi, nth_nextNames _ _ hi, level, level, network, level]
      by_cases h : 2 ^ l ≤ i
      · have hm : ∀ it ∈ levelItems (2 ^ l) (names (2 ^ lgBits) l) i,
            it.Holds (Module.inputs A B) ρ Y.getLsbD := fun it hit =>
          hsub it (List.mem_append_right _ (List.mem_flatMap.mpr ⟨i, List.mem_range.mpr hi, hit⟩))
        rw [levelItems, if_pos h] at hm
        have hp := hm _ (.head _)
        have hg := hm _ (.tail _ (.head _))
        rw [if_pos h, if_pos h, if_pos h, ← hhi, ← hlo]
        refine Prod.ext ?_ hp
        refine hg.trans ?_
        show (_ && _ || _) = (_ || _ && _)
        rw [Bool.or_comm, Bool.and_comm]
        rfl
      · rw [if_neg h, if_neg h, if_neg h]
        exact hhi

theorem mem_ppa_sum {i : ℕ} (h0 : 0 < i) (h : i < 2 ^ lgBits) :
    (Item.assign i (.xor (.wire (nth (names (2 ^ lgBits) 0).pp i))
      (.wire (nth (names (2 ^ lgBits) lgBits).gg (i - 1)))) : Item) ∈ (ppa lgBits).items :=
  List.mem_append_right _ (.tail _ (List.mem_map.mpr ⟨i, List.mem_range'_1.mpr (by omega), rfl⟩))

theorem ppa_carry (hs : (ppa lgBits).Solves A B Y ρ) {i : ℕ} (hi : i < 2 ^ lgBits) :
    ρ (nth (names (2 ^ lgBits) lgBits).gg i) = BitVec.carry (i + 1) A B false := by
  have hg := congrArg Prod.fst (ppa_group hs (Nat.le_refl lgBits) hi)
  rw [network_eq, reach_of_lt hi, window_carry] at hg
  exact hg

/-- **The parallel-prefix adder adds.** -/
theorem ppa_sum (hs : (ppa lgBits).Solves A B Y ρ) : Y = A + B := by
  apply BitVec.eq_of_getLsbD_eq
  intro i hi
  have hp : ρ (nth (names (2 ^ lgBits) 0).pp i) = (A.getLsbD i ^^ B.getLsbD i) :=
    congrArg Prod.snd (ppa_group hs (Nat.zero_le lgBits) hi)
  rw [BitVec.getLsbD_add hi]
  rcases Nat.eq_zero_or_pos i with rfl | h0
  · have hy : Y.getLsbD 0 = ρ (nth (names (2 ^ lgBits) 0).pp 0) :=
      hs _ (List.mem_append_right _ (.head _))
    rw [hy, hp, BitVec.carry_zero, Bool.xor_false]
  · obtain ⟨k, rfl⟩ : ∃ k, i = k + 1 := ⟨i - 1, by omega⟩
    have hy : Y.getLsbD (k + 1) = (ρ (nth (names (2 ^ lgBits) 0).pp (k + 1)) ^^
        ρ (nth (names (2 ^ lgBits) lgBits).gg k)) := hs _ (mem_ppa_sum h0 hi)
    rw [hy, hp, ppa_carry hs (by omega), Bool.xor_assoc]

/-- The one output of the parallel-prefix adder is what the adders of the execution unit compute:
`ppa32` and `ppa64` without `FPGA` are what the generator writes for 5 and 6. -/
theorem ppa_outputs : (ppa lgBits).Outputs A B Y ↔ Y = Rv32Core.ppa A B := by
  obtain ⟨ρ, hs⟩ := (ppa_wellFormed lgBits).solves_run A B
  have hr : (ppa lgBits).run A B = Rv32Core.ppa A B := ppa_sum hs
  exact (ppa_wellFormed lgBits).outputs_iff.trans (Iff.of_eq (congrArg (Y = ·) hr))

end Sum

/-- **The adder generators are correct for every size.**  Both modules declare every wire once and
before its use, the output of the parallel-prefix module is the sum modulo `2 ^ bits`, and the
ripple-carry module of as many bits has the same output for every input. -/
theorem generators_correct (lgBits : ℕ) :
    (ppa lgBits).WellFormed ∧ (rca (2 ^ lgBits)).WellFormed ∧
      ∀ A B Y : BitVec (2 ^ lgBits),
        ((ppa lgBits).Outputs A B Y ↔
          Y.toNat = (A.toNat + B.toNat) % 2 ^ 2 ^ lgBits) ∧
        ((ppa lgBits).Outputs A B Y ↔ (rca (2 ^ lgBits)).Outputs A B Y) := by
  have h0 : 0 < 2 ^ lgBits := Nat.two_pow_pos lgBits
  refine ⟨ppa_wellFormed lgBits, rca_wellFormed h0, fun A B Y => ⟨?_, ?_⟩⟩
  · rw [ppa_outputs, Rv32Core.ppa, ← BitVec.toNat_inj, BitVec.toNat_add]
  · exact ppa_outputs.trans (rca_outputs h0).symm

end Rv32Core.Adders
