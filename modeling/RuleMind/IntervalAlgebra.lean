/-
  What the intervals of `app/mece.py` and its sweep over them say of the rational numbers.
-/
import RuleMind.Exhaustion

namespace RuleMind.Mece

open Text (F64)
open Point

/-! ### Numbers within an interval -/

theorem bound_cases (b : Bound) : b = ⊥ ∨ (∃ q : ℚ, b = finite q) ∨ b = ⊤ := by
  induction b using WithBot.recBotCoe with
  | bot => exact Or.inl rfl
  | coe b =>
    induction b using WithTop.recTopCoe with
    | top => exact Or.inr (Or.inr rfl)
    | coe q => exact Or.inr (Or.inl ⟨q, rfl⟩)

theorem finite_lt {p q : ℚ} : finite p < finite q ↔ p < q := by simp

theorem exists_between_bounds {a b : Bound} (h : a < b) :
    ∃ q : ℚ, toPoint a < num q ∧ num q < toPoint b := by
  have hfinite : ∀ q : ℚ, a < finite q → finite q < b → toPoint a < num q ∧ num q < toPoint b :=
    fun q ha hb => ⟨toPoint.lt_iff_lt.2 ha, toPoint.lt_iff_lt.2 hb⟩
  rcases bound_cases a with rfl | ⟨p, rfl⟩ | rfl
  · rcases bound_cases b with rfl | ⟨r, rfl⟩ | rfl
    · exact absurd h (lt_irrefl _)
    · exact ⟨r - 1, hfinite _ (WithBot.bot_lt_coe _) (finite_lt.2 (by linarith))⟩
    · exact ⟨0, inner_num 0⟩
  · rcases bound_cases b with rfl | ⟨r, rfl⟩ | rfl
    · exact absurd h not_lt_bot
    · simp_all [exists_between]
    · exact ⟨p + 1, hfinite _ (finite_lt.2 (by linarith))
        (WithBot.coe_lt_coe.2 (WithTop.coe_lt_top _))⟩
  · exact absurd h not_top_lt

section Algebra
variable {a b c iv : Interval Bound}

theorem endpoint_holds {e : Bound} (h : iv = ⟨e, e, true, true⟩) :
    iv.Holds toPoint (toPoint e) := by
  subst h
  exact ⟨Or.inr ⟨rfl, rfl⟩, Or.inr ⟨rfl, rfl⟩⟩

theorem exists_num (h : iv.isEmpty = false) :
    (∃ q, iv.Holds toPoint (num q)) ↔ iv.lower ≠ ⊤ ∧ iv.upper ≠ ⊥ := by
  obtain ⟨hle, hends⟩ := Interval.isEmpty_eq_false.1 h
  constructor
  · rintro ⟨q, hlow, hhigh⟩
    refine ⟨fun htop => ?_, fun hbot => ?_⟩
    · rw [htop] at hlow
      exact absurd hlow.le (not_le.2 (inner_num q).2)
    · rw [hbot] at hhigh
      exact absurd hhigh.le (not_le.2 (inner_num q).1)
  · rintro ⟨hlow, hhigh⟩
    rcases hle.lt_or_eq with hlt | heq
    · obtain ⟨q, h1, h2⟩ := exists_between_bounds hlt
      exact ⟨q, Or.inl h1, Or.inl h2⟩
    · obtain ⟨hl, hu⟩ := hends heq
      rcases bound_cases iv.lower with hb | ⟨q, hq⟩ | ht
      · exact absurd (heq ▸ hb) hhigh
      · refine ⟨q, Or.inr ⟨hl, ?_⟩, Or.inr ⟨hu, ?_⟩⟩
        · rw [hq, toPoint_finite]
        · rw [← heq, hq, toPoint_finite]
      · exact absurd ht hlow

/-! ### The operations -/

theorem inter_spec (q : ℚ) : (∃ c, a.inter b = some c ∧ c.Holds toPoint (num q)) ↔
    a.Holds toPoint (num q) ∧ b.Holds toPoint (num q) := by
  grind [Interval.holds_of_inter, Interval.inter_holds]

theorem invert_spec (q : ℚ) : (∃ c ∈ a.invert, c.Holds toPoint (num q)) ↔
    ¬ a.Holds toPoint (num q) := by
  constructor
  · rintro ⟨c, hc, hq⟩
    exact Interval.invert_sound hc hq
  · exact Interval.invert_complete (inner_num q).1 (inner_num q).2

/-- The intervals share an infinite end, and one of them is nothing else. -/
def MeetAtInfinity (a b : Interval Bound) : Prop :=
  ∃ e, (e = ⊥ ∨ e = ⊤) ∧ a.Holds toPoint (toPoint e) ∧ b.Holds toPoint (toPoint e) ∧
    (a = ⟨e, e, true, true⟩ ∨ b = ⟨e, e, true, true⟩)

theorem only_top (h : a.Holds toPoint (toPoint ⊤)) (hlow : a.lower = ⊤) :
    a = ⟨⊤, ⊤, true, true⟩ := by
  obtain ⟨l, u, li, ui⟩ := a
  obtain ⟨habove, hbelow⟩ := h
  obtain rfl : l = ⊤ := hlow
  obtain rfl : u = ⊤ := top_le_iff.1 (toPoint.le_iff_le.1 hbelow.le)
  obtain ⟨rfl, rfl⟩ : li = true ∧ ui = true := (Interval.between_ends habove hbelow).2 rfl
  rfl

theorem only_bot (h : a.Holds toPoint (toPoint ⊥)) (hhigh : a.upper = ⊥) :
    a = ⟨⊥, ⊥, true, true⟩ := by
  obtain ⟨l, u, li, ui⟩ := a
  obtain ⟨habove, hbelow⟩ := h
  obtain rfl : u = ⊥ := hhigh
  obtain rfl : l = ⊥ := le_bot_iff.1 (toPoint.le_iff_le.1 habove.le)
  obtain ⟨rfl, rfl⟩ : li = true ∧ ui = true := (Interval.between_ends habove hbelow).2 rfl
  rfl

theorem meet_at_infinity (h : a.inter b = some c) (hnum : ¬ ∃ q, c.Holds toPoint (num q)) :
    MeetAtInfinity a b := by
  have hne := Interval.inter_isEmpty h
  obtain ⟨hle, hends⟩ := Interval.isEmpty_eq_false.1 hne
  obtain ⟨-, -, hlow, hhigh⟩ := Interval.inter_ends h
  rw [exists_num hne, not_and_or, not_not, not_not] at hnum
  have heq : c.lower = c.upper := by
    rcases hnum with htop | hbot
    · exact htop.trans (top_le_iff.1 (htop ▸ hle)).symm
    · exact (le_bot_iff.1 (hbot ▸ hle)).trans hbot.symm
  have hpoint : c.Holds toPoint (toPoint c.lower) := by
    obtain ⟨hl, hu⟩ := hends heq
    exact ⟨Or.inr ⟨hl, rfl⟩, Or.inr ⟨hu, congrArg toPoint heq⟩⟩
  obtain ⟨ha, hb⟩ := Interval.holds_of_inter h hpoint
  rcases hnum with htop | hbot
  · rw [htop] at ha hb
    refine ⟨⊤, Or.inr rfl, ha, hb, ?_⟩
    grind [only_top]
  · rw [heq, hbot] at ha hb
    refine ⟨⊥, Or.inl rfl, ha, hb, ?_⟩
    grind [only_bot]

theorem infinite_end_num {e : Bound} (he : e = ⊥ ∨ e = ⊤) (q : ℚ) :
    ¬ Interval.Holds toPoint ⟨e, e, true, true⟩ (num q) := by
  intro h
  have hle := h.1.le
  have hge := h.2.le
  rcases he with rfl | rfl
  · exact absurd hge (not_le.2 (inner_num q).1)
  · exact absurd hle (not_le.2 (inner_num q).2)

theorem overlap_spec : (a.overlap b = true ↔
    ∃ q, a.Holds toPoint (num q) ∧ b.Holds toPoint (num q)) ↔ ¬ MeetAtInfinity a b := by
  constructor
  · rintro h ⟨e, he, ha, hb, hab⟩
    obtain ⟨q, hq, hq'⟩ := h.1 (Interval.overlap_of_holds ha hb)
    rcases hab with rfl | rfl
    · exact infinite_end_num he q hq
    · exact infinite_end_num he q hq'
  grind [Interval.overlap_iff_inter, meet_at_infinity, Interval.holds_of_inter,
    Interval.overlap_of_holds]

/-! ### Operators -/

def secondValue (v2 : Option ℚ) : Value := v2.elim .null .float

variable {py : PyText} {search : RegexSearch} {op : Operator} {v : ℚ} {v2 : Option ℚ}

theorem compare_float (hop : op.isOrder = true ∨ op = .eq) (x : ℚ) :
    compare py search (.float x) op (.float v) (secondValue v2) .null =
      .ok (ordered op x v v2) := by
  have htype : typeName .null = .ok "" := rfl
  rw [compare_numeric htype (by decide) (by decide) hop]
  split
  · rename_i heq
    subst heq
    by_cases hx : x = v
    · subst hx
      simp [looseEqual, Value.isBool, pyEq, Value.numeric, ordered]
    · simp [looseEqual, Value.isBool, pyEq, Value.numeric, ordered, hx, coerceNumber, bind,
        Except.bind]
      exact fun h => hx h.symm
  · have hu : coerceNumber py (secondValue v2) = .ok v2 := by cases v2 <;> rfl
    unfold compareNumbers
    rw [hu]
    cases op <;> rfl

theorem between_spec (u : ℚ) : (∀ q, (min v (secondBound v u) ≤ q ∧ q ≤ max v (secondBound v u)) ↔
    v ≤ q ∧ q ≤ u) ↔ v ≤ u ∧ (u = 0 → v = 0) := by
  constructor
  · intro h
    have hv : v ≤ u := ((h v).1 ⟨min_le_left _ _, le_max_left _ _⟩).2
    refine ⟨hv, fun hu => le_antisymm (hu ▸ hv) ?_⟩
    have hmax := ((h u).2 ⟨hv, le_rfl⟩).2
    rwa [secondBound, if_pos hu, max_self, hu] at hmax
  grind [secondBound]

/-- The interval of an operator is what the comparison accepts, unless it is `between`
    without a second bound, with the bounds reversed or with zero over a negative one. -/
theorem operator_spec (hop : op.isOrder = true ∨ op = .eq) :
    (∀ x, (operatorToInterval op (.finite v) (v2.map .finite)).Holds toPoint (num x) ↔
      compare py search (.float x) op (.float v) (secondValue v2) .null = .ok true) ↔
    (op = .between → ∃ u, v2 = some u ∧ v ≤ u ∧ (u = 0 → v = 0)) := by
  have hinterval : operatorToInterval op (.finite v) (v2.map .finite) =
      operatorInterval op (finite v) (v2.map finite) := by
    cases v2 <;> rfl
  simp only [hinterval, compare_float hop, Except.ok.injEq]
  by_cases hb : op = .between
  · subst hb
    cases v2 with
    | none =>
      refine ⟨fun h => ?_, fun h => ?_⟩
      · have hends : operatorInterval .between (finite v) (Option.map finite none) =
            ⟨finite v, finite v, true, true⟩ := by simp [operatorInterval]
        have hv := (h v).1 (endpoint_holds hends)
        simp [ordered] at hv
      · obtain ⟨u, hu, -⟩ := h rfl
        cases hu
    | some u =>
      simp only [Option.map_some, operatorInterval_between, between_num, ordered, Option.any_some,
        Bool.and_eq_true, decide_eq_true_eq]
      rw [between_spec]
      simp
  · refine ⟨fun _ h => absurd h hb, fun _ x => ?_⟩
    rw [operatorInterval_num hop hb]
    cases op <;> first | rfl | exact absurd rfl hb

/-- The algebra is what it is meant to be: on numbers, for these intervals and these
    thresholds. -/
structure AlgebraHolds (py : PyText) (search : RegexSearch) (a b : Interval Bound) (op : Operator)
    (v : ℚ) (v2 : Option ℚ) : Prop where
  inter : ∀ x, (∃ c, a.inter b = some c ∧ c.Holds toPoint (num x)) ↔
    a.Holds toPoint (num x) ∧ b.Holds toPoint (num x)
  overlap : a.overlap b = true ↔ ∃ x, a.Holds toPoint (num x) ∧ b.Holds toPoint (num x)
  invert : ∀ x, (∃ c ∈ a.invert, c.Holds toPoint (num x)) ↔ ¬ a.Holds toPoint (num x)
  operator : ∀ x, (operatorToInterval op (.finite v) (v2.map .finite)).Holds toPoint (num x) ↔
    compare py search (.float x) op (.float v) (secondValue v2) .null = .ok true

/-- **The interval algebra on numbers**, for each operator with an interval of its own. -/
theorem algebra_holds_iff (hop : op.isOrder = true ∨ op = .eq) :
    AlgebraHolds py search a b op v v2 ↔
      ¬ MeetAtInfinity a b ∧ (op = .between → ∃ u, v2 = some u ∧ v ≤ u ∧ (u = 0 → v = 0)) := by
  constructor
  · intro h
    exact ⟨overlap_spec.1 h.overlap, (operator_spec hop).1 h.operator⟩
  · rintro ⟨hinf, hbetween⟩
    exact ⟨inter_spec, overlap_spec.2 hinf, invert_spec, (operator_spec hop).2 hbetween⟩

/-- With the bounds in order all of it holds. -/
theorem between_in_order : AlgebraHolds decimalPy (fun _ _ => false) (.full)
    ⟨finite 0, finite 0, true, true⟩ .between 1 (some 2) := by
  refine (algebra_holds_iff (Or.inl rfl)).2 ⟨?_, fun _ => ⟨2, rfl, by norm_num, by norm_num⟩⟩
  rintro ⟨e, he, -, -, h | h⟩
  · have hinc : false = true := congrArg Interval.lowerInc h
    cases hinc
  · obtain rfl : finite 0 = e := congrArg Interval.lower h
    simp at he

/-- Between -5 and 0 the comparison has numbers that the interval has not. -/
theorem between_zero_differs : ¬ AlgebraHolds decimalPy (fun _ _ => false) .full .full .between
    (-5) (some 0) := by
  intro h
  obtain ⟨u, hu, -, hzero⟩ := (operator_spec (Or.inl rfl)).1 h.operator rfl
  grind

end Algebra

/-! ### The sweep -/

inductive Gap
  /-- All conditions are empty. -/
  | everywhere
  /-- `< b` if `b` is covered, and `<= b` otherwise. -/
  | below (b : Bound) (covered : Bool)
  /-- `in (a, b)`. -/
  | between (a b : Bound)
  /-- `= b`, the boundary gap. -/
  | boundary (b : Bound)
  /-- `> b` if `b` is covered, and `>= b` otherwise. -/
  | above (b : Bound) (covered : Bool)
  deriving DecidableEq

def Gap.Has (p : Point) : Gap → Prop
  | .everywhere => True
  | .below b covered => Interval.Below toPoint b (!covered) p
  | .between a b => toPoint a < p ∧ p < toPoint b
  | .boundary b => p = toPoint b
  | .above b covered => Interval.Above toPoint b (!covered) p

/-- `scanGaps`, with what it names. -/
def sweepGaps : Bound → Bool → List (Interval Bound) → List Gap
  | upper, inc, [] => if upper < ⊤ then [.above upper inc] else []
  | upper, inc, iv :: ivs =>
    (if upper < iv.lower then [.between upper iv.lower]
      else if upper = iv.lower && !inc && !iv.lowerInc then [.boundary upper] else []) ++
      (if upper < iv.upper || (iv.upper = upper && iv.upperInc && !inc) then
        sweepGaps iv.upper iv.upperInc ivs
      else sweepGaps upper inc ivs)

/-- The sweep from the first of the sorted intervals on. -/
def sortedGaps : List (Interval Bound) → List Gap
  | [] => [.everywhere]
  | iv :: ivs =>
    (if ⊥ < iv.lower then [.below iv.lower iv.lowerInc] else []) ++
      sweepGaps iv.upper iv.upperInc ivs

/-- `check_numeric_exhaustiveness`, with what it names. -/
def numericGaps (intervals : List (Interval Bound)) : List Gap :=
  sortedGaps ((intervals.filter (!·.isEmpty)).insertionSort (startsBefore · ·))

section Sweep
variable {name : String} {ivs seen : List (Interval Bound)} {upper b : Bound} {inc : Bool}
variable {g : Gap} {p : Point}

theorem scanGaps_eq (ivs : List (Interval Bound)) : ∀ (upper : Bound) (inc : Bool),
    scanGaps name upper inc ivs = (sweepGaps upper inc ivs).map fun _ => gapOf name := by
  induction ivs with
  | nil =>
    intro upper inc
    rw [scanGaps, sweepGaps]
    split <;> rfl
  | cons iv ivs ih => grind [scanGaps, sweepGaps]

theorem checkNumeric_eq (ivs : List (Interval Bound)) :
    checkNumericExhaustiveness name ivs = (numericGaps ivs).map fun _ => gapOf name := by
  unfold checkNumericExhaustiveness numericGaps
  grind [sortedGaps, scanGaps_eq]

theorem startsBefore_iff {a b : Interval Bound} : startsBefore a b = true ↔
    a.lower < b.lower ∨ (a.lower = b.lower ∧ (b.lowerInc = true → a.lowerInc = true)) := by
  grind -ring -linarith [startsBefore]

instance : Std.Total fun a b : Interval Bound => startsBefore a b = true where
  total a b := by grind -ring -linarith [startsBefore_iff]

instance : IsTrans (Interval Bound) fun a b => startsBefore a b = true where
  trans a b c := by grind -ring -linarith [startsBefore_iff]

theorem above_of_startsBefore {a b : Interval Bound} (h : startsBefore a b = true)
    (hp : Interval.Above toPoint b.lower b.lowerInc p) :
    Interval.Above toPoint a.lower a.lowerInc p := by
  rcases startsBefore_iff.1 h with hlt | ⟨heq, hinc⟩
  · exact Or.inl ((toPoint.lt_iff_lt.2 hlt).trans_le hp.le)
  · rcases hp with hp | ⟨hb, hp⟩
    · exact Or.inl (heq ▸ hp)
    · exact Or.inr ⟨hinc hb, heq ▸ hp⟩

theorem below_farther {u : Bound} {i : Bool} (h : u < upper ∨ (u = upper ∧ (i = true → inc = true)))
    (hp : Interval.Below toPoint u i p) : Interval.Below toPoint upper inc p := by
  rcases h with hlt | ⟨rfl, hinc⟩
  · exact Or.inl (hp.le.trans_lt (toPoint.lt_iff_lt.2 hlt))
  · rcases hp with hp | ⟨hi, hp⟩
    · exact Or.inl hp
    · exact Or.inr ⟨hinc hi, hp⟩

variable {iv : Interval Bound}

theorem not_holds_of_below (hsorted : (iv :: ivs).Pairwise (startsBefore · · = true))
    (hnot : ¬ Interval.Above toPoint iv.lower iv.lowerInc p) :
    ∀ iv' ∈ iv :: ivs, ¬ iv'.Holds toPoint p := by
  intro iv' hiv' hholds
  rcases List.mem_cons.1 hiv' with rfl | hiv'
  · exact hnot hholds.1
  · exact hnot (above_of_startsBefore (List.rel_of_pairwise_cons hsorted hiv') hholds.1)

theorem closed_at_bot (hne : iv.isEmpty = false) (hbot : iv.upper = ⊥) :
    iv.upperInc = true := by simp_all [Interval.isEmpty_eq_false]

theorem sweepGaps_uncovered (hsorted : ivs.Pairwise (startsBefore · · = true))
    (hg : g ∈ sweepGaps upper inc ivs) (hp : g.Has p) :
    ¬ Interval.Below toPoint upper inc p ∧ ∀ iv ∈ ivs, ¬ iv.Holds toPoint p := by
  induction ivs generalizing upper inc with
  | nil =>
    rw [sweepGaps] at hg
    split at hg
    · rw [List.mem_singleton.1 hg] at hp
      exact ⟨Interval.not_below.2 hp, fun _ h => nomatch h⟩
    · cases hg
  | cons iv ivs ih =>
    have hcome := not_holds_of_below (p := p) hsorted
    obtain ⟨-, hsorted⟩ := List.pairwise_cons.1 hsorted
    rw [sweepGaps] at hg
    rcases List.mem_append.1 hg with hg | hg
    · split at hg
      · rw [List.mem_singleton.1 hg] at hp
        exact ⟨fun h => absurd h.le (not_le.2 hp.1), hcome fun h => absurd h.le (not_le.2 hp.2)⟩
      · split at hg
        · rename_i hb
          simp only [Bool.and_eq_true, decide_eq_true_eq, Bool.not_eq_true'] at hb
          obtain ⟨⟨heq, hinc⟩, hlow⟩ := hb
          rw [List.mem_singleton.1 hg] at hp
          change p = toPoint upper at hp
          subst hp
          refine ⟨?_, hcome ?_⟩
          · rintro (h | ⟨h, -⟩)
            · exact lt_irrefl _ h
            · rw [hinc] at h
              cases h
          · rw [← heq]
            rintro (h | ⟨h, -⟩)
            · exact lt_irrefl _ h
            · rw [hlow] at h
              cases h
        · cases hg
    · have hrest : ∀ {u : Bound} {i : Bool}, g ∈ sweepGaps u i ivs →
          (upper < u ∨ (upper = u ∧ (inc = true → i = true))) →
          (iv.upper < u ∨ (iv.upper = u ∧ (iv.upperInc = true → i = true))) →
          ¬ Interval.Below toPoint upper inc p ∧ ∀ iv' ∈ iv :: ivs, ¬ iv'.Holds toPoint p := by
        intro u i hg hold hnew
        obtain ⟨hbelow, hnone⟩ := ih hsorted hg
        refine ⟨fun h => hbelow (below_farther hold h), fun iv' hiv' hholds => ?_⟩
        rcases List.mem_cons.1 hiv' with rfl | hiv'
        · exact hbelow (below_farther hnew hholds.2)
        · exact hnone iv' hiv' hholds
      grind -ring -linarith

theorem sweepGaps_inhabited (hbot : upper = ⊥ → inc = true) (hne : ∀ iv ∈ ivs, iv.isEmpty = false)
    (hg : g ∈ sweepGaps upper inc ivs) : ∃ q, g.Has (num q) := by
  induction ivs generalizing upper inc with
  | nil =>
    rw [sweepGaps] at hg
    split at hg
    · rename_i hlt
      obtain ⟨q, hq, -⟩ := exists_between_bounds hlt
      rw [List.mem_singleton.1 hg]
      exact ⟨q, Or.inl hq⟩
    · cases hg
  | cons iv ivs ih =>
    obtain ⟨hle, hends⟩ := Interval.isEmpty_eq_false.1 (hne iv List.mem_cons_self)
    have hne' : ∀ iv ∈ ivs, iv.isEmpty = false := fun i hi => hne i (List.mem_cons_of_mem _ hi)
    rw [sweepGaps] at hg
    rcases List.mem_append.1 hg with hg | hg
    · split at hg
      · rename_i hlt
        rw [List.mem_singleton.1 hg]
        exact exists_between_bounds hlt
      · split at hg
        · rename_i hb
          simp only [Bool.and_eq_true, decide_eq_true_eq, Bool.not_eq_true'] at hb
          obtain ⟨⟨heq, hinc⟩, hlow⟩ := hb
          rw [List.mem_singleton.1 hg]
          rcases bound_cases upper with hu | ⟨q, hq⟩ | hu
          · rw [hbot hu] at hinc
            cases hinc
          · exact ⟨q, (congrArg toPoint hq).symm⟩
          · grind -ring -linarith
        · cases hg
    grind -ring -linarith [closed_at_bot]

def sortedIntervals (ivs : List (Interval Bound)) : List (Interval Bound) :=
  (ivs.filter (!·.isEmpty)).insertionSort (startsBefore · ·)

theorem mem_sortedIntervals : iv ∈ sortedIntervals ivs ↔ iv ∈ ivs ∧ iv.isEmpty = false := by
  simp [sortedIntervals]

theorem sortedIntervals_pairwise (ivs : List (Interval Bound)) :
    (sortedIntervals ivs).Pairwise (startsBefore · · = true) :=
  List.pairwise_insertionSort _ _

theorem numericGaps_uncovered (hg : g ∈ numericGaps ivs) (hp : g.Has p) :
    ∀ iv ∈ ivs, ¬ iv.Holds toPoint p := by
  suffices h : ∀ iv ∈ sortedIntervals ivs, ¬ iv.Holds toPoint p from fun iv hiv hholds =>
    h iv (mem_sortedIntervals.2 ⟨hiv, Interval.isEmpty_of_holds hholds⟩) hholds
  have hsorted := sortedIntervals_pairwise ivs
  change g ∈ sortedGaps (sortedIntervals ivs) at hg
  cases hs : sortedIntervals ivs with
  | nil => exact fun _ h => nomatch h
  | cons iv rest =>
    rw [hs] at hg hsorted
    rcases List.mem_append.1 hg with hg | hg
    · split at hg
      · rw [List.mem_singleton.1 hg] at hp
        exact not_holds_of_below hsorted (Interval.not_above.2 hp)
      · cases hg
    · obtain ⟨hbelow, hnone⟩ := sweepGaps_uncovered hsorted.of_cons hg hp
      intro iv' hiv' hholds
      rcases List.mem_cons.1 hiv' with rfl | hiv'
      · exact hbelow hholds.2
      · exact hnone iv' hiv' hholds

theorem numericGaps_inhabited (hg : g ∈ numericGaps ivs) : ∃ q, g.Has (num q) := by
  have hne : ∀ iv ∈ sortedIntervals ivs, iv.isEmpty = false :=
    fun iv hiv => (mem_sortedIntervals.1 hiv).2
  change g ∈ sortedGaps (sortedIntervals ivs) at hg
  cases hs : sortedIntervals ivs with
  | nil =>
    rw [hs] at hg
    rw [List.mem_singleton.1 hg]
    exact ⟨0, trivial⟩
  | cons iv rest =>
    rw [hs] at hg hne
    rcases List.mem_append.1 hg with hg | hg
    · split at hg
      · rename_i hlt
        obtain ⟨q, -, hq⟩ := exists_between_bounds hlt
        rw [List.mem_singleton.1 hg]
        exact ⟨q, Or.inl hq⟩
      · cases hg
    grind -ring -linarith [sweepGaps_inhabited, closed_at_bot]

/-- **The sweep is exact**: it knows no gap exactly if every number is in an interval, and the
    point of a boundary gap is a number that is in none. -/
theorem numeric_sweep_exact (name : String) (ivs : List (Interval Bound)) :
    (checkNumericExhaustiveness name ivs = [] ↔ ∀ q, ∃ iv ∈ ivs, iv.Holds toPoint (num q)) ∧
      ∀ b, .boundary b ∈ numericGaps ivs →
        ∃ q, b = finite q ∧ ∀ iv ∈ ivs, ¬ iv.Holds toPoint (num q) := by
  refine ⟨⟨fun h q => intervals_cover (inner_num q) h, fun h => ?_⟩, fun b hb => ?_⟩
  · rw [checkNumeric_eq, List.map_eq_nil_iff, List.eq_nil_iff_forall_not_mem]
    intro g hg
    obtain ⟨q, hq⟩ := numericGaps_inhabited hg
    obtain ⟨iv, hiv, hholds⟩ := h q
    exact numericGaps_uncovered hg hq iv hiv hholds
  · obtain ⟨q, hq⟩ := numericGaps_inhabited hb
    have hfinite : b = finite q := toPoint.injective hq.symm
    exact ⟨q, hfinite, numericGaps_uncovered hb hq⟩

end Sweep

end RuleMind.Mece
