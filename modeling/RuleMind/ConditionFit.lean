/-
  The constraint of a condition against the comparison it stands for.
-/
import RuleMind.Overlap

namespace RuleMind.Mece

open Text (F64)
open Point

/-! ### Fitting conditions -/

section Fits
variable (py : PyText)

def fieldName (config : Dict) : Option String :=
  match (config.lookup "field").filter Value.truthy with
  | some (.str name) => some name
  | _ => none

/-- How the analysis reads the field of a condition. -/
def kindOf (score : Bool) (config : Dict) : Kind :=
  if fieldTypeOf config = .number || score then .number
  else match fieldTypeOf config with
    | .number | .date => .number
    | .boolean => .boolean
    | .other => .text

def analysed (c : Condition) : Value := (c.config.lookup "value").getD (.int 0)

/-- A number the comparison reads off the threshold is one the analysis reads; so it is, if both
    have the same threshold. -/
def Linked (c : Condition) : Prop :=
  entry c.config "value" = c.value ∨ ∀ q, coerceNumber py c.value = .ok (some q) →
    pyFloatOf py (analysed c) = .ok (.finite q)

/-- The analysis and the comparison read the same finite number, not a boolean. -/
structure Threshold (c : Condition) (q : ℚ) : Prop where
  analysed : pyFloatOf py (analysed c) = .ok (.finite q)
  compared : coerceNumber py c.value = .ok (some q)
  noBool : c.value.isBool = false
  double : c.value.IsDouble

/-- The analysis reads no number, and takes the condition for one that never holds. -/
def Unread (c : Condition) : Prop :=
  safeFloat py (analysed c) = .ok .nan ∨ upperOf py c.config = .ok (some .nan)

/-- The field is compared as dates, or as booleans. -/
def Dated (c : Condition) : Prop := typeName c.fieldType = .ok "date"

def BooleanTyped (c : Condition) : Prop := typeName c.fieldType = .ok "boolean"

/-- What a condition on a number has to be like for its constraint not to be too narrow. -/
def NumberAbove (c : Condition) : Prop :=
  match operatorOf c.config with
  | .eq => (∃ q, Threshold py c q) ∧ ¬ Unread py c ∧ ¬ BooleanTyped c ∧ ¬ Dated c
  | .ne => ((∃ q, Threshold py c q) ∨ ∃ x, safeFloat py (analysed c) = .ok x ∧ x.toRat = none) ∧
      ¬ BooleanTyped c ∧ ¬ Dated c
  | .gt | .ge | .lt | .le => upperOf py c.config ≠ .ok (some .nan) ∧ ¬ Dated c
  | .between => entry c.config "value2" = c.value2 ∧
      (∀ e, coerceNumber py c.value = .ok (some e) → coerceNumber py c.value2 = .ok (some 0) →
        0 ≤ e) ∧ ¬ Dated c
  | _ => ¬ Unread py c

/-- And what for it not to be too wide; `always` says that the field has a number, `upward`
    that what is no number lies above the numbers. -/
def NumberBelow (always upward : Bool) (c : Condition) : Prop :=
  (operatorOf c.config ≠ .ne ∧ Unread py c) ∨
    match operatorOf c.config with
    | .eq | .ne => (∃ q, Threshold py c q) ∧ ¬ BooleanTyped c ∧ ¬ Dated c
    | .gt | .ge => (∃ q, Threshold py c q) ∧ ¬ Dated c ∧ (always = true ∨ upward = false)
    | .lt | .le => (∃ q, Threshold py c q) ∧ ¬ Dated c ∧ (always = true ∨ upward = true)
    | .between => (∃ e u, Threshold py c e ∧ upperOf py c.config = .ok (some (.finite u)) ∧
        coerceNumber py c.value2 = .ok (some u) ∧ e ≤ u) ∧ ¬ Dated c
    | .exists => always = true
    | _ => False

/-- Dates are compared as dates, and the analysis takes them for numbers. -/
def DateAbove (c : Condition) : Prop :=
  match operatorOf c.config with
  | .eq | .ne | .gt | .ge | .lt | .le | .between =>
    Dated c ∧ (safeFloat py (analysed c) = .ok .nan ∨ dateToEpoch py c.value = none)
  | _ => safeFloat py (analysed c) = .ok .nan ∨ upperOf py c.config ≠ .ok (some .nan)

def BooleanAbove (always : Bool) (c : Condition) : Prop :=
  match operatorOf c.config with
  | .eq => (BooleanTyped c ∧ toBool py c.value = boolThreshold py c.config) ∨
      (¬ BooleanTyped c ∧ c.value = .bool (boolThreshold py c.config))
  | .ne => (BooleanTyped c ∧ toBool py c.value = boolThreshold py c.config) ∨
      (¬ BooleanTyped c ∧ always = true ∧ c.value = .bool (boolThreshold py c.config))
  | .notExists => always = true
  | _ => True

def BooleanBelow (always : Bool) (c : Condition) : Prop :=
  match operatorOf c.config with
  | .eq => (BooleanTyped c ∧ toBool py c.value = boolThreshold py c.config) ∨
      (¬ BooleanTyped c ∧ ¬ Dated c ∧ always = true ∧ c.value = .bool (boolThreshold py c.config))
  | .ne => (BooleanTyped c ∧ toBool py c.value = boolThreshold py c.config) ∨
      (¬ BooleanTyped c ∧ ¬ Dated c ∧ c.value = .bool (boolThreshold py c.config))
  | .exists => always = true
  | .notExists => True
  | _ => False

/-- A text that is no number, without spaces around it. -/
def Word (py : PyText) (o : Value) : Prop :=
  ∃ s, o = .str s ∧ coerceNumber py o = .ok none ∧ s ≠ "" ∧ pyStrip s.toList = s.toList

/-- An option that is found by what it is written as: no boolean, and no spaces around it. -/
def Written (py : PyText) (o : Value) : Prop :=
  o.isBool = false ∧ o.IsDouble ∧ pyStrip (py.str o).toList = (py.str o).toList

/-- What a threshold on a text has to be like for values that pass `==` to be written as it. -/
def TextWord (c : Condition) : Prop :=
  (∃ s, c.value = .str s ∧ coerceNumber py c.value = .ok none) ∧ ¬ BooleanTyped c ∧ ¬ Dated c

/-- And what for values that are written as it to pass. -/
def TextWritten (c : Condition) : Prop :=
  c.value.isBool = false ∧ c.value.IsDouble ∧ ¬ BooleanTyped c ∧ ¬ Dated c

/-- A condition on a text; `above` turns into its opposite with the operator. -/
def TextFits (above : Bool) (c : Condition) : Prop :=
  entry c.config "value" = c.value ∧
  match operatorOf c.config with
  | .eq => if c.value.isNull then above = true else if above then TextWord py c else TextWritten c
  | .ne => if c.value.isNull then above = true else if above then TextWritten c else TextWord py c
  | .isIn =>
    if above then ∀ o ∈ asOptionList py c.value, Word py o
    else c.value ≠ .null ∧ ∀ o ∈ asOptionList py c.value, Written py o
  | .notIn =>
    if above then c.value ≠ .null ∧ ∀ o ∈ asOptionList py c.value, Written py o
    else ∀ o ∈ asOptionList py c.value, Word py o
  | .notExists => above = false
  | _ => above = true

/-- A condition whose constraint is not too narrow (`above`), or not too wide. -/
def Fits (r : Reading) (always above score : Bool) (c : Condition) : Prop :=
  match fieldName c.config with
  | none => above = true
  | some name =>
    r.kinds name = kindOf score c.config ∧
    if fieldTypeOf c.config = .number || score then
      Linked py c ∧ if above then NumberAbove py c else NumberBelow py always (r.upward name) c
    else match fieldTypeOf c.config with
      | .number | .date => above = true ∧ DateAbove py c
      | .boolean => if above then BooleanAbove py always c else BooleanBelow py always c
      | .other => TextFits py above c

end Fits

/-! ### Readings of a condition -/

section Readings
variable {py : PyText} {search : RegexSearch} {a : String → Value} {c : Condition}

variable {config : Dict} {x : F64}

variable {name : String} {v : Value} {q : ℚ} {op : Operator} {y : Option F64}

theorem fieldName_eq (h : fieldName config = some name) :
    config.lookup "field" = some (.str name) ∧
      (config.lookup "field").filter Value.truthy = some (.str name) := by
  unfold fieldName at h
  cases hf : (config.lookup "field").filter Value.truthy with
  | none =>
    rw [hf] at h
    cases h
  | some v =>
    rw [hf] at h
    cases v with
    | str s => simp_all
    | _ => cases h

theorem subject_eq (h : fieldName config = some name) : subject a config = a name := by
  unfold subject
  rw [(fieldName_eq h).1]

theorem pyFloatOf_of_coerceNumber (h : coerceNumber py v = .ok (some q)) :
    pyFloatOf py v = .ok (.finite q) := by
  cases v with
  | int n => grind [coerceNumber, pyFloatOf]
  | float x =>
    cases h
    rfl
  | str s =>
    simp only [coerceNumber] at h
    simp only [pyFloatOf]
    obtain ⟨x, hx, hq⟩ := Option.bind_eq_some_iff.1 (Except.ok.inj h)
    rw [hx]
    cases x with
    | finite r =>
      cases hq
      rfl
    | infinite _ => cases hq
    | nan => cases hq
  | _ => cases h

theorem analysed_number (hl : Linked py c) (h : coerceNumber py c.value = .ok (some q)) :
    pyFloatOf py (analysed c) = .ok (.finite q) := by
  rcases hl with hl | hl
  · unfold entry at hl
    unfold analysed
    cases hv : c.config.lookup "value" with
    | none =>
      rw [hv] at hl
      rw [← hl] at h
      cases h
    | some v => simp_all [pyFloatOf_of_coerceNumber]
  · exact hl q h

theorem upperOf_number {u : ℚ} (h : coerceNumber py (entry config "value2") = .ok (some u)) :
    upperOf py config = .ok (some (.finite u)) := by
  unfold entry at h
  unfold upperOf
  cases hv : config.lookup "value2" with
  | none =>
    rw [hv] at h
    cases h
  | some v =>
    rw [hv, Option.getD_some] at h
    have hfloat := pyFloatOf_of_coerceNumber h
    cases v with
    | null => cases h
    | _ =>
      show (safeFloat py _).map some = _
      unfold safeFloat
      rw [hfloat]
      rfl

theorem safeFloat_of_ok (h : pyFloatOf py v = .ok x) : safeFloat py v = .ok x := by
  unfold safeFloat
  rw [h]

theorem toInterval_nan (h : x = .nan ∨ y = some .nan) :
    operatorToInterval op x y = emptyInterval := by
  unfold operatorToInterval
  rcases h with rfl | rfl
  · rfl
  · cases F64.order x <;> rfl

theorem toInterval_number {e : Bound} (hx : F64.order x = some e) (hy : y ≠ some .nan) :
    operatorToInterval op x y = operatorInterval op e (y.bind F64.order) := by
  unfold operatorToInterval
  rw [hx]
  cases y with
  | none => rfl
  | some y =>
    cases ho : F64.order y with
    | none => exact absurd (congrArg some (F64.order_eq_none.1 ho)) hy
    | some u => simp [ho]

theorem emptyInterval_holds {p : Point} : ¬ emptyInterval.Holds toPoint p := by
  rintro ⟨h1, h2⟩
  rcases h1 with h1 | ⟨h1, -⟩
  · exact absurd h2.le (not_le.2 h1)
  · cases h1

end Readings

/-! ### Intervals of operators -/

section Operators

variable {inc : Bool}

theorem above_num {e q : ℚ} :
    Interval.Above toPoint (finite e) inc (num q) ↔ e < q ∨ (inc = true ∧ e = q) := by
  simp [Interval.Above]

theorem below_num {e q : ℚ} :
    Interval.Below toPoint (finite e) inc (num q) ↔ q < e ∨ (inc = true ∧ q = e) := by
  simp [Interval.Below]

theorem not_above_low {e : ℚ} : ¬ Interval.Above toPoint (finite e) inc low :=
  fun h => absurd h.le (not_le.2 (low_lt e))

theorem not_below_high {e : ℚ} : ¬ Interval.Below toPoint (finite e) inc high :=
  fun h => absurd h.le (not_le.2 (lt_high e))

variable {e q : ℚ} {w : Option Bound} {p : Point} {op : Operator}

theorem operatorInterval_num (hop : op.isOrder = true ∨ op = .eq) (hb : op ≠ .between) :
    (operatorInterval op (finite e) w).Holds toPoint (num q) ↔ ordered op q e none = true := by
  have hinner := inner_num q
  cases op with
  | eq =>
    simp only [operatorInterval, Interval.Holds, above_num, below_num, ordered, beq_iff_eq]
    grind
  | gt =>
    simp only [operatorInterval, Interval.Holds, above_num, ordered, decide_eq_true_eq]
    simp [Interval.Below, hinner.2]
  | ge =>
    simp only [operatorInterval, Interval.Holds, above_num, ordered, decide_eq_true_eq]
    simp [Interval.Below, hinner.2, le_iff_lt_or_eq]
  | lt =>
    simp only [operatorInterval, Interval.Holds, below_num, ordered, decide_eq_true_eq]
    simp [Interval.Above, hinner.1]
  | le =>
    simp only [operatorInterval, Interval.Holds, below_num, ordered, decide_eq_true_eq]
    simp [Interval.Above, hinner.1, le_iff_lt_or_eq]
  | between => exact absurd rfl hb
  | _ => simp [Operator.isOrder] at hop

theorem between_num {d q : ℚ} : Interval.Holds toPoint
    ⟨min (finite e) (finite d), max (finite e) (finite d), true, true⟩ (num q) ↔
      min e d ≤ q ∧ q ≤ max e d := by
  have hmin : min (finite e) (finite d) = finite (min e d) := by
    rcases le_total e d with h | h
    · rw [min_eq_left h, min_eq_left (by exact_mod_cast h)]
    · rw [min_eq_right h, min_eq_right (by exact_mod_cast h)]
  have hmax : max (finite e) (finite d) = finite (max e d) := by
    rcases le_total e d with h | h
    · rw [max_eq_right h, max_eq_right (by exact_mod_cast h)]
    · rw [max_eq_left h, max_eq_left (by exact_mod_cast h)]
  rw [hmin, hmax]
  simp only [Interval.Holds, above_num, below_num, le_iff_lt_or_eq, true_and]

/-- The second bound of `between` as the analysis takes it. -/
def secondBound (e u : ℚ) : ℚ := if u = 0 then e else u

theorem operatorInterval_between {u : ℚ} : operatorInterval .between (finite e) (some (finite u)) =
    ⟨min (finite e) (finite (secondBound e u)), max (finite e) (finite (secondBound e u)),
      true, true⟩ := by
  unfold operatorInterval secondBound
  by_cases hu : u = 0
  · subst hu
    simp
  · simp [hu]

theorem operatorInterval_absent {upward : Bool}
    (hop : op = .eq ∨ ((op = .gt ∨ op = .ge) ∧ upward = false) ∨
      ((op = .lt ∨ op = .le) ∧ upward = true)) :
    ¬ (operatorInterval op (finite e) w).Holds toPoint (if upward then high else low) := by
  rcases hop with rfl | ⟨rfl | rfl, rfl⟩ | ⟨rfl | rfl, rfl⟩
  · cases upward with
    | true => exact fun h => not_below_high h.2
    | false => exact fun h => not_above_low h.1
  · exact fun h => not_above_low h.1
  · exact fun h => not_above_low h.1
  · exact fun h => not_below_high h.2
  · exact fun h => not_below_high h.2

end Operators

/-! ### Numbers -/

section Numbers
variable {py : PyText} {search : RegexSearch} {a : String → Value} {c : Condition} {r : Reading}
variable {name : String} {type : FieldType} {k : FieldConstraint}

theorem numberConstraint_eq (h : numberConstraint py name type c.config = .ok k) :
    ∃ x y, safeFloat py (analysed c) = .ok x ∧ upperOf py c.config = .ok y ∧
      k = if operatorOf c.config = .ne then numericConstraint name type .full (F64.order x).toList
        else numericConstraint name type (operatorToInterval (operatorOf c.config) x y) [] := by
  unfold numberConstraint at h
  obtain ⟨x, hx, h⟩ := bind_eq_ok.1 h
  obtain ⟨y, hy, h⟩ := bind_eq_ok.1 h
  refine ⟨x, y, hx, hy, ?_⟩
  grind

variable {excluded : List Bound} {always : Bool} {e : ℚ}

theorem shaped_full (hk : r.kinds name = .number) :
    Shaped r (numericConstraint name type .full excluded) := by
  unfold Shaped
  rw [if_pos (by exact hk)]
  exact ⟨.full, rfl, rfl, Or.inr rfl⟩

theorem numberConstraint_shaped (hk : r.kinds name = .number)
    (h : numberConstraint py name type c.config = .ok k) : Shaped r k := by
  obtain ⟨x, y, -, -, rfl⟩ := numberConstraint_eq h
  split
  · exact shaped_full hk
  · exact shaped_numericConstraint hk

theorem holds_full (hk : r.kinds name = .number) :
    Holds py r a (numericConstraint name type .full excluded) ↔
      ∀ e ∈ excluded, toPoint e ≠ fieldPoint py r a name := by
  rw [holds_number (by exact hk) rfl]
  have hinner := inner_pointOf py (r.upward name) (a name)
  simp only [numericConstraint, List.mem_singleton, exists_eq_left]
  constructor
  · exact fun h => h.2
  · exact fun h => ⟨Interval.full_holds hinner.1 hinner.2, h⟩

variable {v : Value} {q : ℚ} {upward b : Bool} {x : F64} {y : Option F64}

theorem pointOf_num (h : coerceNumber py v = .ok (some q)) : pointOf py upward v = num q := by
  unfold pointOf
  rw [h]

theorem pointOf_absent (h : coerceNumber py v = .ok none) :
    pointOf py upward v = if upward then high else low := by
  unfold pointOf
  rw [h]

theorem coerceNumber_of_pointOf
    (h : num q = pointOf py upward v) : coerceNumber py v = .ok (some q) := by
  grind [pointOf, num_inj, lt_high, low_lt]

theorem order_run (hop : (operatorOf c.config).isOrder = true) (hd : ¬ Dated c)
    (hn : fieldName c.config = some name) (h : conditionHolds py search a c = .ok b) :
    compareNumbers py (a name) (operatorOf c.config) c.value c.value2 = .ok b := by
  unfold conditionHolds at h
  rw [subject_eq hn] at h
  exact compare_order hop hd h

theorem equal_run (hop : operatorOf c.config = .eq) (hb : ¬ BooleanTyped c)
    (hd : ¬ Dated c) (hn : fieldName c.config = some name)
    (h : conditionHolds py search a c = .ok b) : looseEqual py (a name) c.value = .ok b := by
  unfold conditionHolds at h
  rw [subject_eq hn, hop] at h
  exact compare_equal hb hd h

theorem unequal_run (hop : operatorOf c.config = .ne) (hb : ¬ BooleanTyped c)
    (hd : ¬ Dated c) (hn : fieldName c.config = some name)
    (h : conditionHolds py search a c = .ok b) : looseEqual py (a name) c.value = .ok (!b) := by
  unfold conditionHolds at h
  rw [subject_eq hn, hop] at h
  exact compare_unequal hb hd h

theorem equal_threshold (hpy : py.Reads) (hv : (a name).IsDouble) (ht : Threshold py c q)
    (h : looseEqual py (a name) c.value = .ok b) :
    b = true ↔ coerceNumber py (a name) = .ok (some q) := by
  rw [looseEqual_number py hpy ht.noBool hv ht.double ht.compared] at h
  obtain ⟨x, hx, rfl⟩ := map_eq_ok.1 h
  rw [hx, beq_iff_eq, Except.ok.injEq]

theorem unread_iff (hx : safeFloat py (analysed c) = .ok x)
    (hy : upperOf py c.config = .ok y) : Unread py c ↔ x = .nan ∨ y = some .nan := by
  unfold Unread
  rw [hx, hy, Except.ok.injEq, Except.ok.injEq]

theorem excluded_point {e : Bound} (he : e ∈ (F64.order x).toList)
    (hpoint : toPoint e = fieldPoint py r a name) :
    ∃ q, x = .finite q ∧ coerceNumber py (a name) = .ok (some q) := by
  have hinner := inner_pointOf py (r.upward name) (a name)
  have ho := Option.mem_toList.1 he
  cases x with
  | finite q =>
    cases ho
    exact ⟨q, rfl, coerceNumber_of_pointOf hpoint⟩
  | infinite neg =>
    cases neg with
    | true =>
      cases ho
      exact absurd hpoint hinner.1.ne
    | false =>
      cases ho
      exact absurd hpoint hinner.2.ne'
  | nan => cases ho

theorem number_above (hpy : py.Reads) (hv : (a name).IsDouble) (hk : r.kinds name = .number)
    (hn : fieldName c.config = some name) (hl : Linked py c) (hfit : NumberAbove py c)
    (h : numberConstraint py name type c.config = .ok k)
    (hcond : conditionHolds py search a c = .ok true) : Holds py r a k := by
  obtain ⟨x, y, hx, hy, rfl⟩ := numberConstraint_eq h
  unfold NumberAbove at hfit
  -- a threshold the comparison reads is the one of the interval
  have hread : ∀ {q}, coerceNumber py c.value = .ok (some q) → x = .finite q := fun hq =>
    Except.ok.inj (hx.symm.trans (safeFloat_of_ok (analysed_number hl hq)))
  have hinterval : ∀ {op}, operatorOf c.config = op → op ≠ .ne →
      (operatorToInterval op x y).Holds toPoint (fieldPoint py r a name) →
      Holds py r a (if operatorOf c.config = .ne then
          numericConstraint name type .full (F64.order x).toList
        else numericConstraint name type (operatorToInterval (operatorOf c.config) x y) []) := by
    rintro op rfl hne hholds
    rw [if_neg hne]
    exact (holds_numericConstraint hk).2 hholds
  have horder : ∀ {op}, operatorOf c.config = op → op.isOrder = true → op ≠ .between →
      upperOf py c.config ≠ .ok (some .nan) → ¬ Dated c →
      (operatorToInterval op x y).Holds toPoint (fieldPoint py r a name) := by
    rintro op rfl hop hb hsecond hd
    obtain ⟨v, t, hv', ht, hsome, hall⟩ := compareNumbers_ok (order_run hop hd hn hcond)
    obtain ⟨q, e, rfl, rfl⟩ := hsome rfl
    rcases hall q e rfl rfl with ⟨-, hord⟩ | ⟨hb', -⟩
    · cases hread ht
      have hyn : y ≠ some .nan := fun hnan => hsecond (hy.trans (congrArg Except.ok hnan))
      rw [toInterval_number rfl hyn, fieldPoint, pointOf_num hv']
      exact (operatorInterval_num (Or.inl hop) hb).2 hord.symm
    · exact absurd hb' hb
  have hother : ∀ {op}, operatorOf c.config = op → ¬ Unread py c →
      (∀ e w, operatorInterval op e w = .full) →
      (operatorToInterval op x y).Holds toPoint (fieldPoint py r a name) := by
    rintro op - hun hfull
    rw [unread_iff hx hy] at hun
    obtain ⟨e, he⟩ : ∃ e, F64.order x = some e := by
      cases ho : F64.order x with
      | none => exact absurd (Or.inl (F64.order_eq_none.1 ho)) hun
      | some e => exact ⟨e, rfl⟩
    rw [toInterval_number he fun hnan => hun (Or.inr hnan), hfull]
    have hinner := inner_pointOf py (r.upward name) (a name)
    exact Interval.full_holds hinner.1 hinner.2
  cases hop : operatorOf c.config with
  | eq =>
    rw [hop] at hfit
    obtain ⟨⟨q, ht⟩, hun, hb, hd⟩ := hfit
    have hq := (equal_threshold hpy hv ht (equal_run hop hb hd hn hcond)).1 rfl
    cases hread ht.compared
    rw [unread_iff hx hy] at hun
    rw [← hop]
    refine hinterval hop (by decide) ?_
    rw [toInterval_number rfl fun hnan => hun (Or.inr hnan), fieldPoint, pointOf_num hq]
    exact (operatorInterval_num (Or.inr rfl) (by decide)).2 (by simp [ordered])
  | ne =>
    rw [hop] at hfit
    obtain ⟨hthreshold, hb, hd⟩ := hfit
    rw [if_pos rfl, holds_full hk]
    intro e he hpoint
    obtain ⟨q, rfl, hq⟩ := excluded_point he hpoint
    have hequal := unequal_run hop hb hd hn hcond
    rcases hthreshold with ⟨q', ht⟩ | ⟨x, hx', hnone⟩
    · cases hread ht.compared
      have := (equal_threshold hpy hv ht hequal).2 hq
      cases this
    · cases hx.symm.trans hx'
      cases hnone
  | gt | ge | lt | le =>
    rw [hop] at hfit
    rw [← hop]
    exact hinterval hop (by decide) (horder hop rfl (by decide) hfit.1 hfit.2)
  | between =>
    rw [hop] at hfit
    obtain ⟨hsecond, hzero, hd⟩ := hfit
    rw [← hop]
    refine hinterval hop (by decide) ?_
    have hrun := order_run (by rw [hop]; rfl) hd hn hcond
    rw [hop] at hrun
    obtain ⟨v, t, hv', ht, hsome, hall⟩ := compareNumbers_ok hrun
    obtain ⟨q, e, rfl, rfl⟩ := hsome rfl
    rcases hall q e rfl rfl with ⟨hb, -⟩ | ⟨-, u, hu, hord⟩
    · exact absurd rfl hb
    · cases u with
      | none => cases hord
      | some u =>
        cases hread ht
        obtain ⟨hle, hle'⟩ : e ≤ q ∧ q ≤ u := by simpa [ordered] using hord
        have hupper : y = some (.finite u) := by
          rw [← hsecond] at hu
          exact Except.ok.inj (hy.symm.trans (upperOf_number hu))
        subst hupper
        rw [toInterval_number rfl (by simp), fieldPoint, pointOf_num hv']
        show (operatorInterval .between (finite e) (some (finite u))).Holds toPoint (num q)
        rw [operatorInterval_between, between_num]
        unfold secondBound
        split
        · grind -ring -linarith
        · exact ⟨le_trans (min_le_left _ _) hle, le_trans hle' (le_max_right _ _)⟩
  | _ =>
    rw [hop] at hfit
    rw [← hop]
    exact hinterval hop (by decide) (hother hop hfit fun _ _ => rfl)

/-- A field has a value of its kind: a number within the range of a double, or a boolean. -/
def HasType (py : PyText) (r : Reading) (a : String → Value) (name : String) : Prop :=
  match r.kinds name with
  | .number => isNumber (a name) = true ∧ ∃ q, coerceNumber py (a name) = .ok (some q)
  | .boolean => (a name).isBool = true
  | .text => ∃ s, a name = .str s

theorem exists_of_number (hv : isNumber v = true ∨ v.isBool = true) {e e2 ft : Value} :
    compare py search v .exists e e2 ft = .ok true := by
  cases v with
  | int n => simp [compare, Value.isNull]
  | float q => simp [compare, Value.isNull]
  | inf neg => simp [compare, Value.isNull]
  | bool b => simp [compare, Value.isNull]
  | _ => rcases hv with hv | hv <;> cases hv

theorem order_below (halways : always = true → ∃ q, coerceNumber py (a name) = .ok (some q))
    (hn : fieldName c.config = some name) (ht : Threshold py c e) (hd : ¬ Dated c)
    (hx : x = .finite e) (hy : y ≠ some .nan) (hop : (operatorOf c.config).isOrder = true)
    (hb : operatorOf c.config ≠ .between)
    (hside : always = true ∨
      ((operatorOf c.config = .gt ∨ operatorOf c.config = .ge) ∧ r.upward name = false) ∨
      ((operatorOf c.config = .lt ∨ operatorOf c.config = .le) ∧ r.upward name = true))
    (hcond : conditionHolds py search a c = .ok false) :
    ¬ (operatorToInterval (operatorOf c.config) x y).Holds toPoint (fieldPoint py r a name) := by
  subst hx
  rw [toInterval_number rfl hy]
  obtain ⟨v, t, hv, ht', -, hall⟩ := compareNumbers_ok (order_run hop hd hn hcond)
  cases ht.compared.symm.trans ht'
  cases v with
  | none => simp_all [fieldPoint, pointOf_absent, operatorInterval_absent]
  | some q =>
    rw [fieldPoint, pointOf_num hv, operatorInterval_num (Or.inl hop) hb]
    simp_all

theorem equal_point (hy : y ≠ some .nan)
    (h : (operatorToInterval .eq (.finite q) y).Holds toPoint (fieldPoint py r a name)) :
    coerceNumber py (a name) = .ok (some q) := by
  rw [toInterval_number rfl hy] at h
  exact coerceNumber_of_pointOf (eq_of_singleton h)

theorem between_below (hn : fieldName c.config = some name) (hop : operatorOf c.config = .between)
    {u : ℚ} (ht : Threshold py c e) (hd : ¬ Dated c)
    (hu : coerceNumber py c.value2 = .ok (some u)) (hle : e ≤ u)
    (hcond : conditionHolds py search a c = .ok false) :
    ¬ (operatorToInterval .between (.finite e) (some (.finite u))).Holds toPoint
      (fieldPoint py r a name) := by
  have hrun := order_run (by rw [hop]; rfl) hd hn hcond
  rw [hop] at hrun
  obtain ⟨v, t, hv, ht', -, hall⟩ := compareNumbers_ok hrun
  cases ht.compared.symm.trans ht'
  rw [toInterval_number rfl (by simp)]
  show ¬ (operatorInterval .between (finite e) (some (finite u))).Holds toPoint _
  rw [operatorInterval_between]
  have hbound : e ≤ secondBound e u ∧ secondBound e u ≤ u := by
    unfold secondBound
    split
    · exact ⟨le_rfl, hle⟩
    · exact ⟨hle, le_rfl⟩
  cases v with
  | none =>
    rw [fieldPoint, pointOf_absent hv]
    intro h
    cases hup : r.upward name with
    | true =>
      rw [hup, max_eq_right (by exact_mod_cast hbound.1)] at h
      exact not_below_high h.2
    | false =>
      rw [hup, min_eq_left (by exact_mod_cast hbound.1)] at h
      exact not_above_low h.1
  | some q =>
    rw [fieldPoint, pointOf_num hv, between_num, min_eq_left hbound.1, max_eq_right hbound.1]
    rintro ⟨h1, h2⟩
    rcases hall q e rfl rfl with ⟨hb, -⟩ | ⟨-, u', hu', hord⟩
    · exact hb rfl
    grind [ordered]

theorem number_below (hpy : py.Reads) (hv : (a name).IsDouble) (hk : r.kinds name = .number)
    (hn : fieldName c.config = some name)
    (halways : always = true → HasType py r a name)
    (hfit : NumberBelow py always (r.upward name) c)
    (h : numberConstraint py name type c.config = .ok k)
    (hcond : conditionHolds py search a c = .ok false) : ¬ Holds py r a k := by
  obtain ⟨x, y, hx, hy, rfl⟩ := numberConstraint_eq h
  have htype : always = true → isNumber (a name) = true ∧
      ∃ q, coerceNumber py (a name) = .ok (some q) := by
    intro hall
    have := halways hall
    unfold HasType at this
    rw [hk] at this
    exact this
  have hread : ∀ {q}, Threshold py c q → x = .finite q := fun ht =>
    Except.ok.inj (hx.symm.trans (safeFloat_of_ok ht.analysed))
  by_cases hne : operatorOf c.config = .ne
  · have hfit : (∃ q, Threshold py c q) ∧ ¬ BooleanTyped c ∧ ¬ Dated c := by
      rcases hfit with ⟨hne', -⟩ | hfit
      · exact absurd hne hne'
      · rw [hne] at hfit
        exact hfit
    obtain ⟨⟨q, ht⟩, hb, hd⟩ := hfit
    cases hread ht
    rw [if_pos hne, holds_full hk]
    intro hall
    have hq := (equal_threshold hpy hv ht (unequal_run hne hb hd hn hcond)).1 rfl
    refine hall (finite q) (Option.mem_toList.2 rfl) ?_
    rw [fieldPoint, pointOf_num hq]
    rfl
  · rw [if_neg hne, holds_numericConstraint hk]
    intro hholds
    have hun : ¬ (x = .nan ∨ y = some .nan) := by
      intro hnan
      rw [toInterval_nan hnan] at hholds
      exact emptyInterval_holds hholds
    have hyn : y ≠ some .nan := fun hnan => hun (Or.inr hnan)
    have hfit := hfit.resolve_left fun h => hun ((unread_iff hx hy).1 h.2)
    cases hop : operatorOf c.config with
    | eq =>
      rw [hop] at hfit hholds
      obtain ⟨⟨q, ht⟩, hb, hd⟩ := hfit
      cases hread ht
      have := (equal_threshold hpy hv ht (equal_run hop hb hd hn hcond)).2 (equal_point hyn hholds)
      cases this
    | ne => exact hne hop
    | gt | ge | lt | le =>
      rw [hop] at hfit
      obtain ⟨⟨q, ht⟩, hd, hside⟩ := hfit
      refine order_below (fun h => (htype h).2) hn ht hd (hread ht) hyn ?_ ?_ ?_ hcond hholds
      · rw [hop]
        rfl
      · simp [hop]
      simp_all
    | between => grind -ring -linarith [between_below]
    | «exists» => simp_all [conditionHolds, subject_eq, exists_of_number]
    | _ =>
      rw [hop] at hfit
      exact hfit

/-! ### Dates -/

theorem dateConstraint_eq (h : dateConstraint py name c.config = .ok k) :
    ∃ x y, safeFloat py (analysed c) = .ok x ∧ upperOf py c.config = .ok y ∧
      k = if operatorOf c.config = .ne then numericConstraint name .date .full (F64.order x).toList
        else if x = .nan then { numericConstraint name .date .full [] with isOpaque := true }
        else numericConstraint name .date (operatorToInterval (operatorOf c.config) x y) [] := by
  unfold dateConstraint at h
  obtain ⟨x, hx, h⟩ := bind_eq_ok.1 h
  obtain ⟨y, hy, h⟩ := bind_eq_ok.1 h
  refine ⟨x, y, hx, hy, ?_⟩
  grind

theorem dateConstraint_shaped (hk : r.kinds name = .number)
    (h : dateConstraint py name c.config = .ok k) : Shaped r k := by
  obtain ⟨x, y, -, -, rfl⟩ := dateConstraint_eq h
  split
  · exact shaped_full hk
  · split
    · unfold Shaped
      rw [if_pos (by exact hk)]
      exact ⟨.full, rfl, rfl, Or.inr rfl⟩
    · exact shaped_numericConstraint hk

theorem dated_false (hop : (operatorOf c.config).isOrder = true ∨ operatorOf c.config = .eq ∨
      operatorOf c.config = .ne) (hd : Dated c) (hnone : dateToEpoch py c.value = none) :
    conditionHolds py search a c = .ok false := by
  unfold conditionHolds
  rw [compare_dates hd hop, compareDates, hnone]
  cases dateToEpoch py (subject a c.config) <;> rfl

theorem date_above (hk : r.kinds name = .number) (hfit : DateAbove py c)
    (h : dateConstraint py name c.config = .ok k)
    (hcond : conditionHolds py search a c = .ok true) : Holds py r a k := by
  obtain ⟨x, y, hx, hy, rfl⟩ := dateConstraint_eq h
  have hdate : (operatorOf c.config).isOrder = true ∨ operatorOf c.config = .eq ∨
      operatorOf c.config = .ne → Dated c ∧
      (safeFloat py (analysed c) = .ok .nan ∨ dateToEpoch py c.value = none) → x = .nan := by
    rintro hop ⟨hd, hnan | hnone⟩
    · exact Except.ok.inj (hx.symm.trans hnan)
    · rw [dated_false hop hd hnone] at hcond
      cases hcond
  by_cases hne : operatorOf c.config = .ne
  · unfold DateAbove at hfit
    rw [hne] at hfit
    rw [if_pos hne, holds_full hk, hdate (Or.inr (Or.inr hne)) hfit]
    exact fun _ he => nomatch he
  · rw [if_neg hne]
    split
    · exact Or.inl rfl
    · rename_i hnan
      rw [holds_numericConstraint hk]
      unfold DateAbove at hfit
      obtain ⟨e, he⟩ : ∃ e, F64.order x = some e := by
        cases ho : F64.order x with
        | none => exact absurd (F64.order_eq_none.1 ho) hnan
        | some e => exact ⟨e, rfl⟩
      have hother : (safeFloat py (analysed c) = .ok .nan ∨
          upperOf py c.config ≠ .ok (some .nan)) →
          (∀ e w, operatorInterval (operatorOf c.config) e w = .full) →
          (operatorToInterval (operatorOf c.config) x y).Holds toPoint
            (fieldPoint py r a name) := by
        intro hfit hfull
        have hyn : y ≠ some .nan := by
          rintro rfl
          rcases hfit with hfit | hfit
          · exact hnan (Except.ok.inj (hx.symm.trans hfit))
          · exact hfit hy
        rw [toInterval_number he hyn, hfull]
        have hinner := inner_pointOf py (r.upward name) (a name)
        exact Interval.full_holds hinner.1 hinner.2
      cases hop : operatorOf c.config with
      | eq | ne => simp_all
      | gt | ge | lt | le | between =>
        rw [hop] at hfit
        exact absurd (hdate (Or.inl (by rw [hop]; rfl)) hfit) hnan
      | _ =>
        rw [hop] at hfit hother
        exact hother hfit fun _ _ => rfl

end Numbers

/-! ### Booleans -/

section Booleans
variable {py : PyText} {search : RegexSearch} {a : String → Value} {c : Condition} {r : Reading}
variable {name : String}

variable {b always : Bool}

theorem boolName_inj {b' : Bool} : boolName b = boolName b' ↔ b = b' := by
  cases b <;> cases b' <;> decide

theorem stringify_bool (b : Bool) : stringify py (.bool b) = boolName b := by
  cases b <;> rfl

theorem repr_ne_boolName (n : ℤ) (b : Bool) : n.repr ≠ boolName b := by
  intro h
  have hmem : 'e' ∈ (boolName b).toList := by cases b <;> decide
  rw [← h] at hmem
  rcases mem_repr_digits hmem with hd | hd
  · exact absurd hd (by decide)
  · exact absurd hd (by decide)

theorem toBool_of_stringify (hpy : py.Reads) {v : Value} (hv : v.IsDouble)
    (h : stringify py v = boolName b) : toBool py v = b := by
  have htext : boolText (boolName b) = b := by cases b <;> decide
  cases v with
  | bool b' =>
    rw [stringify_bool, boolName_inj] at h
    exact h
  | int n => exact absurd h (repr_ne_boolName n b)
  | float q =>
    have hread := coerceNumber_stringify py hpy (v := .float q) rfl hv rfl
    rw [h, ← @stringify_bool py, coerceNumber_boolWord] at hread
    cases hread
  | inf neg =>
    have hne : ∀ neg b, (if neg = true then "-inf" else "inf") ≠ boolName b := by decide
    exact absurd h (hne neg b)
  | null =>
    have h : py.str .null = boolName b := h
    show boolText (py.str .null) = b
    rw [h, htext]
  | str s =>
    have h : py.str (.str s) = boolName b := h
    show boolText (py.str (.str s)) = b
    rw [h, htext]
  | list vs =>
    have h : py.str (.list vs) = boolName b := h
    show boolText (py.str (.list vs)) = b
    rw [h, htext]
  | dict kvs =>
    have h : py.str (.dict kvs) = boolName b := h
    show boolText (py.str (.dict kvs)) = b
    rw [h, htext]

theorem fieldText_boolean (hk : r.kinds name = .boolean) :
    fieldText py r a name = boolName (toBool py (a name)) := by
  unfold fieldText
  rw [hk]

theorem holds_boolean (hk : r.kinds name = .boolean) :
    Holds py r a (booleanConstraint py name c.config) ↔
      boolName (toBool py (a name)) ∈ (match operatorOf c.config with
        | .eq => [boolName (boolThreshold py c.config)]
        | .ne => [boolName (!boolThreshold py c.config)]
        | .notExists => []
        | _ => ["true", "false"]) := by
  unfold booleanConstraint
  rw [holds_setConstraint (by rw [hk]; decide), fieldText_boolean hk]
  rfl

theorem boolName_mem (b : Bool) : boolName b ∈ ["true", "false"] := by
  cases b <;> decide

theorem boolean_run (hb : BooleanTyped c) (hn : fieldName c.config = some name)
    (hop : operatorOf c.config = .eq ∨ operatorOf c.config = .ne)
    (h : conditionHolds py search a c = .ok b) :
    b = ((toBool py (a name) == toBool py c.value) == decide (operatorOf c.config = .eq)) := by
  unfold conditionHolds at h
  rw [subject_eq hn, compare_booleans hb hop] at h
  exact (Except.ok.inj h).symm

theorem loose_run {t : Bool} (hb : ¬ BooleanTyped c) (hd : ¬ Dated c)
    (hn : fieldName c.config = some name)
    (hop : operatorOf c.config = .eq ∨ operatorOf c.config = .ne) (ht : c.value = .bool t)
    (h : conditionHolds py search a c = .ok b) :
    (stringify py (a name) == boolName t) = (b == decide (operatorOf c.config = .eq)) := by
  have hloose : looseEqual py (a name) c.value = .ok (b == decide (operatorOf c.config = .eq)) := by
    rcases hop with hop | hop
    · rw [hop, equal_run hop hb hd hn h]
      simp
    · rw [hop, unequal_run hop hb hd hn h]
      simp
  rw [ht, looseEqual_bool, stringify_bool] at hloose
  exact Except.ok.inj hloose

theorem boolean_dated {t : Bool} (hd : Dated c)
    (hop : operatorOf c.config = .eq ∨ operatorOf c.config = .ne) (ht : c.value = .bool t)
    (h : conditionHolds py search a c = .ok b) : b = false := by
  have hfalse : conditionHolds py search a c = .ok false :=
    dated_false (Or.inr hop) hd (by rw [ht]; rfl)
  exact Except.ok.inj (h.symm.trans hfalse)

theorem boolean_value (halways : always = true → HasType py r a name)
    (hk : r.kinds name = .boolean) (h : always = true) : ∃ b, a name = .bool b := by
  grind -ring -linarith [HasType, Value.eq_bool]

theorem boolean_above (hpy : py.Reads) (hv : (a name).IsDouble) (hk : r.kinds name = .boolean)
    (hn : fieldName c.config = some name)
    (halways : always = true → HasType py r a name) (hfit : BooleanAbove py always c)
    (hcond : conditionHolds py search a c = .ok true) :
    Holds py r a (booleanConstraint py name c.config) := by
  rw [holds_boolean hk]
  unfold BooleanAbove at hfit
  cases hop : operatorOf c.config with
  | eq =>
    rw [hop] at hfit
    rw [List.mem_singleton, boolName_inj]
    rcases hfit with ⟨hb, hthreshold⟩ | ⟨hb, hvalue⟩
    · grind -ring -linarith [boolean_run]
    · have hd : ¬ Dated c := fun hd => by cases boolean_dated hd (Or.inl hop) hvalue hcond
      have hrun := loose_run hb hd hn (Or.inl hop) hvalue hcond
      grind -ring -linarith [toBool_of_stringify]
  | ne =>
    rw [hop] at hfit
    rw [List.mem_singleton, boolName_inj]
    rcases hfit with ⟨hb, hthreshold⟩ | ⟨hb, hall, hvalue⟩
    · grind -ring -linarith [boolean_run]
    · have hd : ¬ Dated c := fun hd => by cases boolean_dated hd (Or.inr hop) hvalue hcond
      have hrun := loose_run hb hd hn (Or.inr hop) hvalue hcond
      obtain ⟨b, hval⟩ := boolean_value halways hk hall
      rw [hval, stringify_bool, hop] at hrun
      rw [hval]
      show b = _
      grind -ring -linarith [boolThreshold]
  | notExists =>
    rw [hop] at hfit
    obtain ⟨b, hval⟩ := boolean_value halways hk hfit
    simp_all [conditionHolds, subject_eq, compare, Value.isNull]
  | _ => exact boolName_mem _

theorem boolean_below (hpy : py.Reads) (hv : (a name).IsDouble) (hk : r.kinds name = .boolean)
    (hn : fieldName c.config = some name)
    (halways : always = true → HasType py r a name) (hfit : BooleanBelow py always c)
    (hcond : conditionHolds py search a c = .ok false) :
    ¬ Holds py r a (booleanConstraint py name c.config) := by
  rw [holds_boolean hk]
  unfold BooleanBelow at hfit
  cases hop : operatorOf c.config with
  | eq =>
    rw [hop] at hfit
    rw [List.mem_singleton, boolName_inj]
    rcases hfit with ⟨hb, hthreshold⟩ | ⟨hb, hd, hall, hvalue⟩
    · grind -ring -linarith [boolean_run]
    · have hrun := loose_run hb hd hn (Or.inl hop) hvalue hcond
      obtain ⟨b, hval⟩ := boolean_value halways hk hall
      rw [hval, stringify_bool, hop] at hrun
      rw [hval]
      show ¬ b = _
      rw [← boolName_inj]
      simpa using hrun
  | ne =>
    rw [hop] at hfit
    rw [List.mem_singleton, boolName_inj]
    have heq : toBool py (a name) = boolThreshold py c.config := by
      rcases hfit with ⟨hb, hthreshold⟩ | ⟨hb, hd, hvalue⟩
      · grind -ring -linarith [boolean_run]
      · have hrun := loose_run hb hd hn (Or.inr hop) hvalue hcond
        grind -ring -linarith [toBool_of_stringify]
    rw [heq]
    simp
  | «exists» =>
    rw [hop] at hfit
    obtain ⟨b, hval⟩ := boolean_value halways hk hfit
    unfold conditionHolds at hcond
    rw [subject_eq hn, hop, hval, exists_of_number (Or.inr rfl)] at hcond
    cases hcond
  | notExists => exact List.not_mem_nil
  | _ =>
    rw [hop] at hfit
    exact hfit.elim

end Booleans

/-! ### Texts -/

section Texts
variable {py : PyText} {search : RegexSearch} {a : String → Value} {c : Condition} {r : Reading}
variable {name : String}

theorem fieldText_text (hk : r.kinds name = .text) :
    fieldText py r a name = stringify py (a name) := by
  unfold fieldText
  rw [hk]

theorem holds_text {s : ValueSet String} (hk : r.kinds name = .text) :
    Holds py r a (setConstraint name .other s) ↔ s.Holds (stringify py (a name)) := by
  rw [holds_setConstraint (by rw [hk]; decide), fieldText_text hk]

theorem lookup_of_entry (h : entry c.config "value" = c.value) (hne : c.value ≠ .null) :
    c.config.lookup "value" = some c.value := by
  unfold entry at h
  cases hl : c.config.lookup "value" with
  | none =>
    rw [hl] at h
    exact absurd h.symm hne
  | some v =>
    rw [hl] at h
    exact congrArg some h

theorem optionSet_word (hvalue : entry c.config "value" = c.value) {s : String}
    (ho : .str s ∈ asOptionList py c.value) (hs : s ≠ "") (hstrip : pyStrip s.toList = s.toList) :
    s ∈ optionSet py c.config := by
  have hlookup := lookup_of_entry hvalue
  have hsplit : ∀ v, c.value = v → v ≠ .null → (∀ vs, v ≠ .list vs) →
      .str s ∈ (splitOptions (py.str v)).map Value.str → s ∈ optionSet py c.config := by
    intro v hv hne hlist hmem
    unfold optionSet
    rw [hlookup (hv ▸ hne), hv, Option.getD_some]
    obtain ⟨t, ht, heq⟩ := List.mem_map.1 hmem
    cases heq
    cases v with
    | list vs => exact absurd rfl (hlist vs)
    | _ => exact ht
  cases hv : c.value with
  | null =>
    rw [hv] at ho
    cases ho
  | list vs =>
    rw [hv] at ho
    unfold optionSet
    rw [hlookup (by rw [hv]; simp), hv, Option.getD_some]
    have hne : s.toList ≠ [] := by
      intro hnil
      apply hs
      rw [← String.ofList_toList (s := s), hnil]
    refine List.mem_map.2 ⟨s.toList, List.mem_filter.2 ⟨List.mem_map.2 ⟨.str s, ho, hstrip⟩, ?_⟩, ?_⟩
    · simpa using hne
    · exact String.ofList_toList
  | _ =>
    rw [hv] at ho
    exact hsplit _ hv (by simp) (by simp) ho

theorem of_mem_optionSet (hvalue : entry c.config "value" = c.value) (hne : c.value ≠ .null)
    {t : String} (ht : t ∈ optionSet py c.config) :
    ∃ o ∈ asOptionList py c.value, t = String.ofList (pyStrip (py.str o).toList) ∨ o = .str t := by
  unfold optionSet at ht
  rw [lookup_of_entry hvalue hne, Option.getD_some] at ht
  cases hv : c.value with
  | null => exact absurd hv hne
  | list vs =>
    rw [hv] at ht
    obtain ⟨cs, hcs, rfl⟩ := List.mem_map.1 ht
    obtain ⟨o, ho, rfl⟩ := List.mem_map.1 (List.mem_filter.1 hcs).1
    exact ⟨o, ho, Or.inl rfl⟩
  | _ =>
    rw [hv] at ht
    exact ⟨.str t, List.mem_map_of_mem ht, Or.inr rfl⟩

theorem word_mem (hvalue : entry c.config "value" = c.value)
    (hwords : ∀ o ∈ asOptionList py c.value, Word py o) {v : Value}
    (h : anyLooseEqual py v (asOptionList py c.value) = .ok true) :
    stringify py v ∈ optionSet py c.config := by
  obtain ⟨o, ho, heq⟩ := (anyLooseEqual_iff h).1 rfl
  obtain ⟨s, rfl, hnone, hs, hstrip⟩ := hwords o ho
  simp_all [looseEqual_text, map_eq_ok, optionSet_word]

theorem written_equal (hpy : py.Reads) (hvalue : entry c.config "value" = c.value)
    (hne : c.value ≠ .null) (hwritten : ∀ o ∈ asOptionList py c.value, Written py o) {v : Value}
    (hv : v.IsDouble) (h : anyLooseEqual py v (asOptionList py c.value) = .ok false) :
    stringify py v ∉ optionSet py c.config := by
  intro hmem
  obtain ⟨o, ho, ht⟩ := of_mem_optionSet hvalue hne hmem
  obtain ⟨hb, hd, hstrip⟩ := hwritten o ho
  have htext : stringify py v = py.str o := by
    rcases ht with ht | rfl
    · rw [ht, hstrip, String.ofList_toList]
    · rfl
  cases looseEqual_written hpy hv hd hb htext (anyLooseEqual_false h o ho)

theorem equal_word (hw : TextWord py c) {v : Value} (h : looseEqual py v c.value = .ok true) :
    stringify py v = py.str c.value := by
  obtain ⟨⟨s, hs, hnone⟩, -⟩ := hw
  rw [hs] at h hnone ⊢
  rw [looseEqual_text py hnone] at h
  obtain ⟨-, -, heq⟩ := map_eq_ok.1 h
  exact beq_iff_eq.1 heq

theorem options_run {b : Bool} (hn : fieldName c.config = some name)
    (hop : operatorOf c.config = .isIn ∨ operatorOf c.config = .notIn)
    (h : conditionHolds py search a c = .ok b) :
    anyLooseEqual py (a name) (asOptionList py c.value) =
      .ok (b == decide (operatorOf c.config = .isIn)) := by
  unfold conditionHolds at h
  rw [subject_eq hn] at h
  rcases hop with hop | hop
  · rw [hop] at h ⊢
    rw [show anyLooseEqual py (a name) (asOptionList py c.value) = .ok b from h]
    simp
  · rw [hop] at h ⊢
    obtain ⟨x, hx, rfl⟩ := map_eq_ok.1
      (show (anyLooseEqual py (a name) (asOptionList py c.value)).map (!·) = .ok b from h)
    rw [hx]
    simp

theorem textConstraint_shaped (hk : r.kinds name = .text) :
    Shaped r (textConstraint py name c.config) := by
  have hne : r.kinds name ≠ .number := by
    rw [hk]
    decide
  have hbool : r.kinds name = .boolean → FieldType.other = .boolean := by
    rw [hk]
    exact fun h => nomatch h
  have hunknown : Shaped r { setConstraint name .other ⟨none, []⟩ with isOpaque := true } := by
    unfold Shaped
    rw [if_neg (by exact hne)]
    exact ⟨rfl, rfl, hbool⟩
  grind [textConstraint, shaped_setConstraint]

theorem text_above (hpy : py.Reads) (hv : (a name).IsDouble) (hk : r.kinds name = .text)
    (hn : fieldName c.config = some name) (hfit : TextFits py true c)
    (hcond : conditionHolds py search a c = .ok true) :
    Holds py r a (textConstraint py name c.config) := by
  obtain ⟨hvalue, hfit⟩ := hfit
  have hval : (c.config.lookup "value").getD .null = c.value := hvalue
  unfold textConstraint
  rw [hval]
  dsimp only
  cases hop : operatorOf c.config with
  | isIn =>
    rw [hop] at hfit
    rw [holds_text hk]
    refine word_mem hvalue hfit ?_
    rw [options_run hn (Or.inl hop) hcond, hop]
    rfl
  | notIn =>
    rw [hop] at hfit
    rw [holds_text hk]
    refine written_equal hpy hvalue hfit.1 hfit.2 hv ?_
    rw [options_run hn (Or.inr hop) hcond, hop]
    rfl
  | eq =>
    rw [hop] at hfit
    dsimp only at hfit ⊢
    split
    · exact Or.inl rfl
    · rename_i hnull
      rw [if_neg hnull] at hfit
      rw [holds_text hk]
      exact List.mem_singleton.2 (equal_word hfit (equal_run hop hfit.2.1 hfit.2.2 hn hcond))
  | ne =>
    rw [hop] at hfit
    dsimp only at hfit ⊢
    split
    · exact Or.inl rfl
    · rename_i hnull
      rw [if_neg hnull] at hfit
      obtain ⟨hb, hd, hbt, hdt⟩ := hfit
      rw [holds_text hk]
      intro hmem
      have heq := List.mem_singleton.1 hmem
      cases looseEqual_written hpy hv hd hb heq (unequal_run hop hbt hdt hn hcond)
  | «exists» =>
    rw [holds_text hk]
    exact List.not_mem_nil
  | notExists =>
    rw [hop] at hfit
    cases hfit
  | _ => exact Or.inl rfl

theorem text_below (hpy : py.Reads) (hv : (a name).IsDouble) (hk : r.kinds name = .text)
    (hn : fieldName c.config = some name) (hfit : TextFits py false c)
    (hcond : conditionHolds py search a c = .ok false) :
    ¬ Holds py r a (textConstraint py name c.config) := by
  obtain ⟨hvalue, hfit⟩ := hfit
  have hval : (c.config.lookup "value").getD .null = c.value := hvalue
  unfold textConstraint
  rw [hval]
  dsimp only
  cases hop : operatorOf c.config with
  | isIn =>
    rw [hop] at hfit
    rw [holds_text hk]
    refine written_equal hpy hvalue hfit.1 hfit.2 hv ?_
    rw [options_run hn (Or.inl hop) hcond, hop]
    rfl
  | notIn =>
    rw [hop] at hfit
    rw [holds_text hk]
    intro hnot
    refine hnot (word_mem hvalue hfit ?_)
    rw [options_run hn (Or.inr hop) hcond, hop]
    rfl
  | eq =>
    rw [hop] at hfit
    dsimp only at hfit ⊢
    split
    · simp_all
    · rename_i hnull
      rw [if_neg hnull] at hfit
      obtain ⟨hb, hd, hbt, hdt⟩ := hfit
      rw [holds_text hk]
      intro hmem
      have heq := List.mem_singleton.1 hmem
      cases looseEqual_written hpy hv hd hb heq (equal_run hop hbt hdt hn hcond)
  | ne =>
    rw [hop] at hfit
    dsimp only at hfit ⊢
    split
    · simp_all
    · rename_i hnull
      rw [if_neg hnull] at hfit
      rw [holds_text hk]
      intro hnot
      exact hnot (List.mem_singleton.2
        (equal_word hfit (unequal_run hop hfit.2.1 hfit.2.2 hn hcond)))
  | notExists =>
    rw [holds_text hk]
    exact List.not_mem_nil
  | _ =>
    rw [hop] at hfit
    cases hfit

end Texts

/-! ### All conditions -/

section Fitting
variable {py : PyText} {search : RegexSearch} {a : String → Value} {r : Reading}

variable {score : Bool} {config : Dict} {name : String} {k : Option FieldConstraint}

theorem extract_eq (hn : fieldName config = some name)
    (h : extractConstraint py score config = .ok k) :
    ∃ k', k = some k' ∧
      if fieldTypeOf config = .number || score then
        numberConstraint py name (fieldTypeOf config) config = .ok k'
      else match fieldTypeOf config with
        | .number | .date => dateConstraint py name config = .ok k'
        | .boolean => k' = booleanConstraint py name config
        | .other => k' = textConstraint py name config := by
  unfold extractConstraint at h
  rw [(fieldName_eq hn).2] at h
  dsimp only at h
  split at h
  · rename_i hnum
    obtain ⟨k', hk', rfl⟩ := map_eq_ok.1 h
    exact ⟨k', rfl, by rw [if_pos hnum]; exact hk'⟩
  · rename_i hnum
    cases htype : fieldTypeOf config with
    | number =>
      rw [htype] at hnum
      simp at hnum
    | date =>
      rw [htype] at h hnum
      obtain ⟨k', hk', rfl⟩ := map_eq_ok.1 h
      exact ⟨k', rfl, by rw [if_neg hnum]; exact hk'⟩
    | boolean => simp_all
    | other => simp_all

theorem extract_none (hn : fieldName config = none)
    {k : FieldConstraint} : extractConstraint py score config ≠ .ok (some k) := by
  grind [fieldName, extractConstraint]

theorem fits_cases {always above : Bool} {c : Condition}
    (hn : fieldName c.config = some name) (hfit : Fits py r always above score c)
    (h : extractConstraint py score c.config = .ok k) :
    ∃ k', k = some k' ∧
      ((r.kinds name = .number ∧ (∃ type, numberConstraint py name type c.config = .ok k') ∧
        Linked py c ∧ if above then NumberAbove py c else NumberBelow py always (r.upward name) c) ∨
      (r.kinds name = .number ∧ dateConstraint py name c.config = .ok k' ∧ above = true ∧
        DateAbove py c) ∨
      (r.kinds name = .boolean ∧ k' = booleanConstraint py name c.config ∧
        if above then BooleanAbove py always c else BooleanBelow py always c) ∨
      (r.kinds name = .text ∧ k' = textConstraint py name c.config ∧ TextFits py above c)) := by
  obtain ⟨k', rfl, hext⟩ := extract_eq hn h
  refine ⟨k', rfl, ?_⟩
  unfold Fits at hfit
  rw [hn] at hfit
  obtain ⟨hkind, hfit⟩ := hfit
  unfold kindOf at hkind
  split at hext
  · grind
  · rename_i hnum
    rw [if_neg hnum] at hkind hfit
    right
    cases htype : fieldTypeOf c.config with
    | number =>
      rw [htype] at hnum
      simp at hnum
    | date => simp_all
    | boolean => simp_all
    | other => simp_all

theorem fits_fitting (hpy : py.Reads) (ha : ∀ name, (a name).IsDouble) {always : Bool}
    (halways : always = true → ∀ name, HasType py r a name) :
    Fitting py search a (Holds py r a) (Shaped r) (Fits py r always) := by
  refine ⟨?_, ?_, ?_⟩
  · intro above score c k hfit hk
    cases hn : fieldName c.config with
    | none => exact absurd hk (extract_none hn)
    | some name =>
      obtain ⟨k', hk', hcases⟩ := fits_cases hn hfit hk
      cases hk'
      rcases hcases with ⟨hkind, ⟨_, hext⟩, -⟩ | ⟨hkind, hext, -⟩ | ⟨hkind, rfl, -⟩ | ⟨hkind, rfl, -⟩
      · exact numberConstraint_shaped hkind hext
      · exact dateConstraint_shaped hkind hext
      · exact shaped_setConstraint (by rw [hkind]; decide) fun _ => rfl
      · exact textConstraint_shaped hkind
  · intro score c k hfit hk hcond
    cases hn : fieldName c.config with
    | none => exact absurd hk (extract_none hn)
    | some name =>
      obtain ⟨k', hk', hcases⟩ := fits_cases hn hfit hk
      cases hk'
      rcases hcases with ⟨hkind, ⟨_, hext⟩, hl, hf⟩ | ⟨hkind, hext, -, hf⟩ | ⟨hkind, rfl, hf⟩ |
        ⟨hkind, rfl, hf⟩
      · exact number_above hpy (ha name) hkind hn hl hf hext hcond
      · exact date_above hkind hf hext hcond
      · grind -ring -linarith [boolean_above]
      · exact text_above hpy (ha name) hkind hn hf hcond
  · intro score c k hfit hk
    cases hn : fieldName c.config with
    | none =>
      unfold Fits at hfit
      rw [hn] at hfit
      cases hfit
    | some name =>
      obtain ⟨k', rfl, hcases⟩ := fits_cases hn hfit hk
      refine ⟨k', rfl, fun hcond => ?_⟩
      rcases hcases with ⟨hkind, ⟨_, hext⟩, -, hf⟩ | ⟨-, -, habove, -⟩ | ⟨hkind, rfl, hf⟩ |
        ⟨hkind, rfl, hf⟩
      · grind -ring -linarith [number_below]
      · cases habove
      · grind -ring -linarith [boolean_below]
      · exact text_below hpy (ha name) hkind hn hf hcond

end Fitting

end RuleMind.Mece
