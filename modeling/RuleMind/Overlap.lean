/-
  What a constraint says of the value of its field, and the overlap of branches.
-/
import RuleMind.BranchSpace
import Mathlib.Data.List.ProdSigma
import Mathlib.Order.Hom.WithTopBot

namespace RuleMind.Mece

/-! ### Points -/

/-- Numbers, a value below them and one above them, and the infinite ends. -/
abbrev Point := WithBot (WithBot (WithTop (WithTop ℚ)))

def toPoint : Bound ↪o Point :=
  OrderEmbedding.withBotMap
    (RelEmbedding.trans (OrderEmbedding.withTopMap WithTop.coeOrderHom) WithBot.coeOrderHom)

def Point.num (q : ℚ) : Point :=
  (((q : WithTop ℚ) : WithTop (WithTop ℚ)) : WithBot (WithTop (WithTop ℚ)))

def Point.low : Point := ((⊥ : WithBot (WithTop (WithTop ℚ))) : Point)

def Point.high : Point :=
  ((((⊤ : WithTop ℚ) : WithTop (WithTop ℚ)) : WithBot (WithTop (WithTop ℚ))) : Point)

open Point

@[simp] theorem num_lt {p q : ℚ} : num p < num q ↔ p < q := by simp [num]

@[simp] theorem num_inj {p q : ℚ} : num p = num q ↔ p = q := by simp [num]

theorem low_lt (q : ℚ) : low < num q := by simp [low, num]

theorem lt_high (q : ℚ) : num q < high := by simp [high, num]

def Inner (p : Point) : Prop := toPoint ⊥ < p ∧ p < toPoint ⊤

theorem inner_num (q : ℚ) : Inner (num q) :=
  ⟨WithBot.bot_lt_coe _, WithBot.coe_lt_coe.2 (WithBot.coe_lt_coe.2 (WithTop.coe_lt_top _))⟩

theorem inner_low : Inner low := ⟨WithBot.bot_lt_coe _, WithBot.coe_lt_coe.2 (WithBot.bot_lt_coe _)⟩

theorem inner_high : Inner high :=
  ⟨WithBot.bot_lt_coe _, WithBot.coe_lt_coe.2 (WithBot.coe_lt_coe.2 (WithTop.coe_lt_top _))⟩

abbrev finite (q : ℚ) : Bound := (q : WithTop ℚ)

@[simp] theorem toPoint_finite (q : ℚ) : toPoint (finite q) = num q := rfl

/-! ### Readings -/

inductive Kind
  | number
  | boolean
  | text
  deriving DecidableEq, Repr

/-- How the values of the fields are read: the kinds of the fields, and for each whether what
    is no number lies above the numbers. -/
structure Reading where
  kinds : String → Kind
  upward : String → Bool

section Holds
variable (py : PyText) (r : Reading) (a : String → Value)

def pointOf (upward : Bool) (v : Value) : Point :=
  match coerceNumber py v with
  | .ok (some q) => num q
  | _ => if upward then high else low

theorem inner_pointOf (upward : Bool) (v : Value) : Inner (pointOf py upward v) := by
  grind [pointOf, inner_num, inner_high, inner_low]

/-- The value of a field as the analysis reads it. -/
def fieldPoint (name : String) : Point := pointOf py (r.upward name) (a name)

def fieldText (name : String) : String :=
  match r.kinds name with
  | .boolean => boolName (toBool py (a name))
  | _ => stringify py (a name)

/-- A constraint holds of the assignment; of an opaque one nothing is known. -/
def Holds (c : FieldConstraint) : Prop :=
  c.isOpaque = true ∨
    if r.kinds c.fieldName = .number then
      (∃ iv ∈ c.intervals, iv.Holds toPoint (fieldPoint py r a c.fieldName)) ∧
        ∀ e ∈ c.excludedPoints, toPoint e ≠ fieldPoint py r a c.fieldName
    else ∃ s, c.valueSet = some s ∧ s.Holds (fieldText py r a c.fieldName)

/-- A constraint of the kind of its field: of intervals, or of a set. -/
def OfKind (c : FieldConstraint) : Prop :=
  if r.kinds c.fieldName = .number then c.intervals ≠ [] ∧ c.valueSet = none
  else c.intervals = [] ∧ c.valueSet.isSome = true ∧
    (r.kinds c.fieldName = .boolean → c.fieldType = .boolean)

/-- A constraint of the kind of its field, as a condition gives it. -/
def Shaped (c : FieldConstraint) : Prop :=
  if r.kinds c.fieldName = .number then
    ∃ iv, c.intervals = [iv] ∧ c.valueSet = none ∧ (c.excludedPoints = [] ∨ iv = .full)
  else c.intervals = [] ∧ c.valueSet.isSome = true ∧
    (r.kinds c.fieldName = .boolean → c.fieldType = .boolean)

variable {py r a} {c : FieldConstraint}

theorem Shaped.ofKind (h : Shaped r c) : OfKind r c := by
  unfold Shaped at h
  unfold OfKind
  grind

variable {p : Point} {iv : Interval Bound} {s : ValueSet String} {name : String} {type :
  FieldType} {e x y : FieldConstraint} {b : Branch}

theorem singleton_holds {e : Bound} (h : toPoint e = p) :
    Interval.Holds toPoint ⟨e, e, true, true⟩ p :=
  ⟨Or.inr ⟨rfl, h⟩, Or.inr ⟨rfl, h.symm⟩⟩

theorem eq_of_singleton {e : Bound}
    (h : Interval.Holds toPoint ⟨e, e, true, true⟩ p) : toPoint e = p :=
  le_antisymm h.1.le h.2.le

theorem invertConstraint_number (hclear : c.isOpaque = false)
    (hiv : c.intervals = [iv]) : invertConstraint c =
      if c.excludedPoints = [] then
        iv.invert.map fun iv => [numericConstraint c.fieldName c.fieldType iv []]
      else c.excludedPoints.map fun p =>
        [numericConstraint c.fieldName c.fieldType ⟨p, p, true, true⟩ []] := by
  simp [invertConstraint, hclear, hiv]

theorem invertConstraint_set (hclear : c.isOpaque = false)
    (hiv : c.intervals = []) (hs : c.valueSet = some s) :
    invertConstraint c = [[setConstraint c.fieldName c.fieldType s.invert]] := by
  simp [invertConstraint, hclear, hiv, hs]

theorem invertConstraint_unclear (hclear : c.isOpaque = true) : invertConstraint c = [[c]] := by
  simp [invertConstraint, hclear]

theorem holds_number (hk : r.kinds c.fieldName = .number) (hclear : c.isOpaque = false) :
    Holds py r a c ↔
      (∃ iv ∈ c.intervals, iv.Holds toPoint (fieldPoint py r a c.fieldName)) ∧
        ∀ e ∈ c.excludedPoints, toPoint e ≠ fieldPoint py r a c.fieldName := by
  unfold Holds
  rw [if_pos hk, hclear]
  simp

theorem holds_set (hk : r.kinds c.fieldName ≠ .number) (hclear : c.isOpaque = false)
    (hs : c.valueSet = some s) :
    Holds py r a c ↔ s.Holds (fieldText py r a c.fieldName) := by
  unfold Holds
  rw [if_neg hk, hclear, hs]
  simp

theorem holds_numericConstraint
    (hk : r.kinds name = .number) : Holds py r a (numericConstraint name type iv []) ↔
      iv.Holds toPoint (fieldPoint py r a name) := by
  rw [holds_number (by exact hk) rfl]
  simp [numericConstraint]

theorem holds_setConstraint
    (hk : r.kinds name ≠ .number) : Holds py r a (setConstraint name type s) ↔
      s.Holds (fieldText py r a name) := holds_set hk rfl rfl

theorem shaped_numericConstraint
    (hk : r.kinds name = .number) : Shaped r (numericConstraint name type iv []) := by
  unfold Shaped
  rw [if_pos (by exact hk)]
  exact ⟨iv, rfl, rfl, Or.inl rfl⟩

theorem shaped_setConstraint
    (hk : r.kinds name ≠ .number) (ht : r.kinds name = .boolean → type = .boolean) :
    Shaped r (setConstraint name type s) := by
  unfold Shaped
  rw [if_neg (by exact hk)]
  exact ⟨rfl, rfl, ht⟩

/-- An inverse of a constraint of intervals is an interval the constraint has no point of, and
    every point it does not have is in one. -/
theorem invert_number (hp : Inner p) (hclear : c.isOpaque = false)
    (hiv : c.intervals = [iv]) (hfull : c.excludedPoints = [] ∨ iv = .full) :
    (∀ b ∈ invertConstraint c, ∃ iv', b = [numericConstraint c.fieldName c.fieldType iv' []] ∧
      (iv'.Holds toPoint p → ¬ (iv.Holds toPoint p ∧ ∀ e ∈ c.excludedPoints, toPoint e ≠ p))) ∧
    (¬ (iv.Holds toPoint p ∧ ∀ e ∈ c.excludedPoints, toPoint e ≠ p) → ∃ iv',
      [numericConstraint c.fieldName c.fieldType iv' []] ∈ invertConstraint c ∧
        iv'.Holds toPoint p) := by
  rw [invertConstraint_number hclear hiv]
  by_cases hex : c.excludedPoints = []
  · rw [if_pos hex, hex]
    constructor
    · intro b hb
      obtain ⟨iv', hmem, rfl⟩ := List.mem_map.1 hb
      exact ⟨iv', rfl, fun h hc => Interval.invert_sound hmem h hc.1⟩
    · intro hnot
      obtain ⟨iv', hmem, h⟩ := Interval.invert_complete hp.1 hp.2
        fun h => hnot ⟨h, fun _ he => nomatch he⟩
      exact ⟨iv', List.mem_map_of_mem hmem, h⟩
  · rw [if_neg hex]
    constructor
    · intro b hb
      obtain ⟨e, hmem, rfl⟩ := List.mem_map.1 hb
      exact ⟨_, rfl, fun h hc => hc.2 e hmem (eq_of_singleton h)⟩
    · intro hnot
      have hall : iv.Holds toPoint p := by
        rw [hfull.resolve_left hex]
        exact Interval.full_holds hp.1 hp.2
      push Not at hnot
      grind [singleton_holds]

theorem constraint_inverts : Inverts (Holds py r a) (Shaped r) := by
  refine ⟨?_, ?_, ?_⟩
  · intro c hc b hb c' hc'
    cases hclear : c.isOpaque with
    | true => simp_all [invertConstraint_unclear]
    | false =>
      by_cases hk : r.kinds c.fieldName = .number
      · unfold Shaped at hc
        rw [if_pos hk] at hc
        obtain ⟨iv, hiv, -, hfull⟩ := hc
        obtain ⟨iv', rfl, -⟩ := (invert_number (inner_num 0) hclear hiv hfull).1 b hb
        rw [List.mem_singleton.1 hc']
        exact shaped_numericConstraint hk
      · unfold Shaped at hc
        rw [if_neg hk] at hc
        obtain ⟨s, hs⟩ := Option.isSome_iff_exists.1 hc.2.1
        simp_all [invertConstraint_set, shaped_setConstraint]
  · intro c hc hnot
    have hclear : c.isOpaque = false := by
      cases h : c.isOpaque with
      | true => exact absurd (Or.inl h) hnot
      | false => rfl
    by_cases hk : r.kinds c.fieldName = .number
    · unfold Shaped at hc
      rw [if_pos hk] at hc
      obtain ⟨iv, hiv, -, hfull⟩ := hc
      rw [holds_number hk hclear, hiv] at hnot
      obtain ⟨iv', hmem, h⟩ := (invert_number (inner_pointOf py _ _) hclear hiv hfull).2
        fun h => hnot ⟨⟨iv, List.mem_singleton_self _, h.1⟩, h.2⟩
      refine ⟨_, hmem, fun c' hc' => ?_⟩
      rw [List.mem_singleton.1 hc']
      exact (holds_numericConstraint hk).2 h
    · unfold Shaped at hc
      rw [if_neg hk] at hc
      obtain ⟨s, hs⟩ := Option.isSome_iff_exists.1 hc.2.1
      rw [holds_set hk hclear hs] at hnot
      rw [invertConstraint_set hclear hc.1 hs]
      refine ⟨_, List.mem_singleton_self _, fun c' hc' => ?_⟩
      rw [List.mem_singleton.1 hc']
      exact (holds_setConstraint hk).2 (ValueSet.invert_holds.2 hnot)
  · intro c hc hclear b hb hholds
    by_cases hk : r.kinds c.fieldName = .number
    · unfold Shaped at hc
      rw [if_pos hk] at hc
      obtain ⟨iv, hiv, -, hfull⟩ := hc
      obtain ⟨iv', rfl, hsound⟩ := (invert_number (inner_pointOf py _ _) hclear hiv hfull).1 b hb
      have h := (holds_numericConstraint hk).1 (hholds _ (List.mem_singleton_self _))
      rw [holds_number hk hclear, hiv]
      rintro ⟨⟨iv₀, hmem, h₀⟩, hex⟩
      rw [List.mem_singleton.1 hmem] at h₀
      exact hsound h ⟨h₀, hex⟩
    · unfold Shaped at hc
      rw [if_neg hk] at hc
      obtain ⟨s, hs⟩ := Option.isSome_iff_exists.1 hc.2.1
      rw [invertConstraint_set hclear hc.1 hs, List.mem_singleton] at hb
      subst hb
      have h := (holds_setConstraint hk).1 (hholds _ (List.mem_singleton_self _))
      rw [holds_set hk hclear hs]
      exact ValueSet.invert_holds.1 h

/-! ### Normalized branches -/

theorem meet_intervals (he : e.intervals ≠ []) (hc : c.intervals ≠ []) :
    (e.meet c).intervals =
      (let merged := e.intervals.flatMap fun i => c.intervals.filterMap i.inter
      if merged.isEmpty then [emptyInterval] else merged) := by
  simp [FieldConstraint.meet, he, hc]

theorem meet_ofKind (hname : e.fieldName = c.fieldName) (he : OfKind r e)
    (hc : OfKind r c) : OfKind r (e.meet c) := by
  unfold OfKind at he hc ⊢
  rw [← hname] at hc
  show if r.kinds e.fieldName = .number then _ else _
  split
  · grind -ring -linarith [FieldConstraint.meet]
  · rename_i hk
    rw [if_neg hk] at he hc
    grind -ring -linarith [FieldConstraint.meet]

theorem meet_holds (hname : e.fieldName = c.fieldName) (he : OfKind r e)
    (hc : OfKind r c) (hhe : Holds py r a e) (hhc : Holds py r a c) : Holds py r a (e.meet c) := by
  by_cases hclear : (e.meet c).isOpaque = true
  · exact Or.inl hclear
  rw [Bool.not_eq_true] at hclear
  obtain ⟨hoe, hoc⟩ := Bool.or_eq_false_iff.1 hclear
  unfold OfKind at he hc
  rw [← hname] at hc
  by_cases hk : r.kinds e.fieldName = .number
  · rw [if_pos hk] at he hc
    rw [holds_number hk hoe] at hhe
    rw [holds_number (hname ▸ hk) hoc, ← hname] at hhc
    obtain ⟨⟨i, hi, hip⟩, hex⟩ := hhe
    obtain ⟨⟨j, hj, hjp⟩, hex'⟩ := hhc
    obtain ⟨m, hm, hmp⟩ := Interval.inter_holds hip hjp
    have hmem : m ∈ e.intervals.flatMap fun i => c.intervals.filterMap i.inter :=
      List.mem_flatMap.2 ⟨i, hi, List.mem_filterMap.2 ⟨j, hj, hm⟩⟩
    rw [holds_number (by exact hk) hclear, meet_intervals he.1 hc.1]
    refine ⟨⟨m, ?_, hmp⟩, ?_⟩
    · grind -ring -linarith
    · intro p hp
      rcases List.mem_append.1 hp with hp | hp
      · exact hex p hp
      · exact hex' p hp
  · rw [if_neg hk] at he hc
    obtain ⟨s, hs⟩ := Option.isSome_iff_exists.1 he.2.1
    obtain ⟨t, ht⟩ := Option.isSome_iff_exists.1 hc.2.1
    simp_all [holds_set, FieldConstraint.meet, ValueSet.inter_holds]

variable {P : FieldConstraint → Prop} {ba bb : Branch} {ra rb : RuleSpace}

theorem addConstraint_forall
    (hmeet : ∀ e c, e.fieldName = c.fieldName → P e → P c → P (e.meet c)) {es : Branch}
    (hes : ∀ e ∈ es, P e) (hc : P c) : ∀ e ∈ addConstraint es c, P e := by
  induction es with
  | nil =>
    intro e he
    rw [List.mem_singleton.1 he]
    exact hc
  | cons e es ih => grind [addConstraint]

theorem normalize_forall (hmeet : ∀ e c, e.fieldName = c.fieldName → P e → P c → P (e.meet c))
    (hb : ∀ c ∈ b, P c) : ∀ c ∈ normalizeBranch b, P c := by
  have hfold : ∀ (b es : Branch), (∀ e ∈ es, P e) → (∀ c ∈ b, P c) →
      ∀ c ∈ b.foldl addConstraint es, P c := by
    intro b
    induction b with
    | nil => exact fun es hes _ => hes
    | cons c b ih =>
      intro es hes hb
      exact ih _ (addConstraint_forall hmeet hes (hb c List.mem_cons_self))
        fun x hx => hb x (List.mem_cons_of_mem _ hx)
  exact hfold b [] (fun _ he => nomatch he) hb

theorem normalize_ofKind (hb : ∀ c ∈ b, OfKind r c) :
    ∀ c ∈ normalizeBranch b, OfKind r c := normalize_forall (fun _ _ h => meet_ofKind h) hb

theorem normalize_holds (hk : ∀ c ∈ b, OfKind r c) (hb : BranchHolds (Holds py r a) b) :
    BranchHolds (Holds py r a) (normalizeBranch b) := by
  have h : ∀ c ∈ normalizeBranch b, OfKind r c ∧ Holds py r a c := by
    refine normalize_forall ?_ fun c hc => ⟨hk c hc, hb c hc⟩
    rintro e c hname ⟨he, hhe⟩ ⟨hc, hhc⟩
    exact ⟨meet_ofKind hname he hc, meet_holds hname he hc hhe hhc⟩
  exact fun c hc => (h c hc).2

/-! ### Overlap -/

theorem mem_sharedFields {fa fb : Branch} (h : (x, y) ∈ sharedFields fa fb) :
    x ∈ fa ∧ y ∈ fb ∧ x.fieldName = y.fieldName := by
  obtain ⟨z, hz, hmap⟩ := List.mem_filterMap.1 h
  obtain ⟨w, hw, hpair⟩ := Option.map_eq_some_iff.1 hmap
  grind

theorem constraintsOverlap_of_holds (hname : x.fieldName = y.fieldName)
    (hx : OfKind r x) (hy : OfKind r y) (hhx : Holds py r a x) (hhy : Holds py r a y) :
    constraintsOverlap x y = true := by
  unfold constraintsOverlap
  cases hclear : x.isOpaque || y.isOpaque with
  | true => rfl
  | false =>
    obtain ⟨hox, hoy⟩ := Bool.or_eq_false_iff.1 hclear
    rw [if_neg Bool.false_ne_true]
    unfold OfKind at hx hy
    rw [← hname] at hy
    by_cases hk : r.kinds x.fieldName = .number
    · rw [if_pos hk] at hx hy
      rw [holds_number hk hox] at hhx
      rw [holds_number (hname ▸ hk) hoy, ← hname] at hhy
      obtain ⟨⟨i, hi, hip⟩, hex⟩ := hhx
      obtain ⟨⟨j, hj, hjp⟩, hex'⟩ := hhy
      obtain ⟨m, hm, hmp⟩ := Interval.inter_holds hip hjp
      rw [if_pos (by simp [hx.1, hy.1])]
      refine List.any_eq_true.2 ⟨i, hi, List.any_eq_true.2 ⟨j, hj, ?_⟩⟩
      rw [Interval.overlap_of_holds hip hjp, hm, Bool.true_and, Option.any_some, Bool.not_eq_true']
      -- a meet of one point is the point itself, which neither excludes
      by_contra hexcl
      simp only [excludedMeet, Bool.not_eq_false, Bool.and_eq_true, decide_eq_true_eq,
        Bool.or_eq_true] at hexcl
      obtain ⟨⟨⟨heq, -⟩, -⟩, hmem⟩ := hexcl
      have hpoint : toPoint m.lower = fieldPoint py r a x.fieldName :=
        le_antisymm hmp.1.le (heq ▸ hmp.2.le)
      grind
    · rw [if_neg hk] at hx hy
      obtain ⟨s, hs⟩ := Option.isSome_iff_exists.1 hx.2.1
      obtain ⟨t, ht⟩ := Option.isSome_iff_exists.1 hy.2.1
      rw [holds_set hk hox hs] at hhx
      rw [holds_set (hname ▸ hk) hoy ht, ← hname] at hhy
      rw [if_neg (by simp [hx.1]), hs, ht]
      exact ValueSet.overlap_of_holds hhx hhy

theorem branchesOverlap_of_holds (hka : ∀ c ∈ ba, OfKind r c)
    (hkb : ∀ c ∈ bb, OfKind r c) (ha : BranchHolds (Holds py r a) ba)
    (hb : BranchHolds (Holds py r a) bb) : branchesOverlap ba bb = true := by
  refine List.all_eq_true.2 fun xy hxy => ?_
  obtain ⟨hx, hy, hname⟩ := mem_sharedFields hxy
  exact constraintsOverlap_of_holds hname (normalize_ofKind hka _ hx) (normalize_ofKind hkb _ hy)
    (normalize_holds hka ha _ hx) (normalize_holds hkb hb _ hy)

theorem described_of_kind (hname : x.fieldName = y.fieldName)
    (hx : OfKind r x) (hy : OfKind r y) : described (x, y) = true := by
  unfold OfKind at hx hy
  rw [← hname] at hy
  unfold described
  grind -ring -linarith

theorem overlapDiagnostic_error (hka : ∀ c ∈ ba, OfKind r c)
    (hkb : ∀ c ∈ bb, OfKind r c) (h : branchesOverlap ba bb = true) :
    ∃ fields, overlapDiagnostic ra rb ba bb = some ⟨.overlap, .error, fields, [ra.id, rb.id]⟩ := by
  unfold overlapDiagnostic
  cases hshared : sharedFields (normalizeBranch ba) (normalizeBranch bb) with
  | nil => exact ⟨[], rfl⟩
  | cons xy rest =>
    have hmem : xy ∈ sharedFields (normalizeBranch ba) (normalizeBranch bb) :=
      hshared ▸ List.mem_cons_self
    obtain ⟨hx, hy, hname⟩ := mem_sharedFields hmem
    have hover := List.all_eq_true.1 h xy hmem
    have hdesc := described_of_kind hname (normalize_ofKind hka _ hx) (normalize_ofKind hkb _ hy)
    simp_all

theorem pairDiagnostic_error (hka : ∀ b ∈ ra.branches, ∀ c ∈ b, OfKind r c)
    (hkb : ∀ b ∈ rb.branches, ∀ c ∈ b, OfKind r c)
    (ha : ∃ b ∈ ra.branches, BranchHolds (Holds py r a) b)
    (hb : ∃ b ∈ rb.branches, BranchHolds (Holds py r a) b) :
    ∃ fields, pairDiagnostic ra rb = some ⟨.overlap, .error, fields, [ra.id, rb.id]⟩ := by
  obtain ⟨ba, hmema, hba⟩ := ha
  obtain ⟨bb, hmemb, hbb⟩ := hb
  have hover := branchesOverlap_of_holds (hka ba hmema) (hkb bb hmemb) hba hbb
  unfold pairDiagnostic
  cases hfind : (ra.branches.product rb.branches).find? fun b => branchesOverlap b.1 b.2 with
  | none => simp_all
  | some b =>
    obtain ⟨h1, h2⟩ := List.mem_product.1 (List.mem_of_find?_eq_some hfind)
    have hb : branchesOverlap b.1 b.2 = true :=
      List.find?_some (p := fun b : Branch × Branch => branchesOverlap b.1 b.2) hfind
    exact overlapDiagnostic_error (hka _ h1) (hkb _ h2) hb

theorem exclusive_of_report {spaces : List RuleSpace}
    (hk : ∀ s ∈ spaces, ∀ b ∈ s.branches, ∀ c ∈ b, OfKind r c)
    (h : (pairReport spaces).isMutuallyExclusive = true) :
    spaces.Pairwise fun s t => ¬ ((∃ b ∈ s.branches, BranchHolds (Holds py r a) b) ∧
      ∃ b ∈ t.branches, BranchHolds (Holds py r a) b) := by
  have hall : ∀ d ∈ pairDiagnostics spaces, ¬ (d.type = .overlap ∧ d.severity = .error) := by
    intro d hd hcon
    have := List.all_eq_true.1 h d (List.mem_append_left _ hd)
    simp [hcon.1, hcon.2] at this
  clear h
  induction spaces with
  | nil => exact List.Pairwise.nil
  | cons s spaces ih =>
    refine List.Pairwise.cons ?_ (ih (fun t ht => hk t (List.mem_cons_of_mem _ ht))
      fun d hd => hall d (List.mem_append_right _ hd))
    rintro t ht ⟨hs, ht'⟩
    obtain ⟨fields, hd⟩ := pairDiagnostic_error (hk s List.mem_cons_self)
      (hk t (List.mem_cons_of_mem _ ht)) hs ht'
    exact hall _ (List.mem_append_left _ (List.mem_filterMap.2 ⟨t, ht, hd⟩)) ⟨rfl, rfl⟩

end Holds

end RuleMind.Mece
