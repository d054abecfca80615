/-
  Scorecards as the server stores them, and the numbers and ranges of both sides.
-/
import RuleMind.DeviceScorecard
import Mathlib.Data.List.Find

namespace RuleMind.DartScore

open Text (F64 sign readDecimal lowerCase readDecimal_lowerCase trim trimBy isSpace trimBy_parts
  trimBy_exists)
open RuleTree (iterate)

/-! ### Stored documents -/

def Number (v : Option Value) : Prop :=
  v = none ∨ (∃ n, v = some (.int n)) ∨ ∃ q, v = some (.float q)

def Bound (v : Option Value) : Prop := Number v ∨ v = some .null

def Null (v : Option Value) : Prop := v = none ∨ v = some .null

def TextOrNull (v : Option Value) : Prop := Null v ∨ ∃ s, v = some (.str s)

def ListOrNull (v : Option Value) : Prop := Null v ∨ ∃ vs, v = some (.list vs)

def items : Option Value → List Value
  | some (.list vs) => vs
  | _ => []

structure StoredRange (range : Value) : Prop where
  min : Bound (range.field "min")
  max : Bound (range.field "max")
  points : Number (range.field "points")

structure StoredWoeRange (range : Value) : Prop where
  min : Bound (range.field "min")
  max : Bound (range.field "max")
  woe : Number (range.field "woe")
  iv : Number (range.field "iv")

/-- `ScorecardBinModel`; no field has another spelling. -/
structure StoredFactor (factor : Value) : Prop where
  variableId : TextOrNull (factor.field "variable_id")
  weight : Number (factor.field "weight")
  coefficient : Number (factor.field "coefficient")
  ranges : ListOrNull (factor.field "ranges")
  range : ∀ r ∈ items (factor.field "ranges"), StoredRange r
  woeValues : ListOrNull (factor.field "woe_values")
  woeRange : ∀ r ∈ items (factor.field "woe_values"), StoredWoeRange r
  spelling : ∀ key ∈ ["variableId", "woeValues"], Null (factor.field key)

/-- `MetricFormulaModel`. -/
structure StoredMetric (metric : Value) : Prop where
  name : metric.field "name" = none ∨ ∃ s, metric.field "name" = some (.str s)
  formula : TextOrNull (metric.field "formula")
  unit : TextOrNull (metric.field "unit")
  category : TextOrNull (metric.field "category")

/-- `ScorecardUpsertRequest`, whose method is not that of the weights of evidence. -/
structure StoredCard (card : Value) : Prop where
  id : TextOrNull (card.field "id")
  name : TextOrNull (card.field "name")
  baseScore : Number (card.field "base_score")
  maxScore : Number (card.field "max_score")
  method : TextOrNull (card.field "scoring_method")
  notWoe : card.field "scoring_method" ≠ some (.str "woe")
  formula : TextOrNull (card.field "formula")
  bins : ListOrNull (card.field "bins")
  factor : ∀ f ∈ items (card.field "bins"), StoredFactor f
  metrics : ListOrNull (card.field "metrics")
  metric : ∀ m ∈ items (card.field "metrics"), StoredMetric m
  spelling : ∀ key ∈ ["baseScore", "maxScore", "scoringMethod"], Null (card.field key)

/-! ### Numbers of both sides -/

def numberOr (v : Option Value) (d : ℚ) : ℚ :=
  match v with
  | some (.int n) => n
  | some (.float q) => q
  | _ => d

def intOr (v : Option Value) (d : ℤ) : ℤ :=
  match v with
  | some (.int n) => n
  | some (.float q) => truncRat q
  | _ => d

section Numbers
variable {py : PyText} {v : Option Value}

theorem float_number (h : Number v) {d : Value} {q : ℚ} (hd : Exact.float py d = .ok (.finite q)) :
    Exact.float py (v.getD d) = .ok (.finite (numberOr v q)) := by
  rcases h with rfl | ⟨n, rfl⟩ | ⟨x, rfl⟩
  · exact hd
  · rfl
  · rfl

theorem asDouble_number (h : Number v) (q : ℚ) :
    (asDouble v).getD (.finite q) = .finite (numberOr v q) := by
  rcases h with rfl | ⟨n, rfl⟩ | ⟨x, rfl⟩
  · rfl
  · rfl
  · rfl

theorem pyInt_number (h : Number v) (d : ℤ) : pyIntOf py (v.getD (.int d)) = .ok (intOr v d) := by
  rcases h with rfl | ⟨n, rfl⟩ | ⟨x, rfl⟩
  · rfl
  · rfl
  · rfl

theorem asInt_number (h : Number v) (d : ℤ) : ∃ n, asInt v = some n ∧ n.getD d = intOr v d := by
  rcases h with rfl | ⟨n, rfl⟩ | ⟨x, rfl⟩
  · exact ⟨none, rfl, rfl⟩
  · exact ⟨some n, rfl, rfl⟩
  · exact ⟨some (truncRat x), rfl, rfl⟩

theorem asMaps_list (h : ListOrNull v) : asMaps v = some ((items v).filterMap Value.asDict) := by
  rcases h with (rfl | rfl) | ⟨vs, rfl⟩
  · rfl
  · rfl
  · rfl

theorem orElse_null {a : Option Value} (h : Null a) (b : Option Value) : orElse a b = b := by
  rcases h with rfl | rfl
  · rfl
  · rfl

theorem orElse_unspelled {kvs : Dict} {key : String} (h : Null ((Value.dict kvs).field key))
    (b : Option Value) : orElse (kvs.lookup key) b = b := orElse_null h b

end Numbers

/-- The finite number a value stands for on the server, -/
def serverNumber (py : PyText) (v : Value) : Option ℚ := (Exact.float py v).toOption.bind F64.toRat

def deviceNumber (v : Value) : Option ℚ := (pythonFloat v).bind F64.toRat

/-! ### Ranges -/

/-- A bound that is left out is zero, and a null one is none. -/
def boundOf : Option Value → Option ℚ
  | none => some 0
  | some (.int n) => some n
  | some (.float q) => some q
  | _ => none

def inBounds (range : Value) (x : Option ℚ) : Bool :=
  match boundOf (range.field "min"), boundOf (range.field "max"), x with
  | some lo, some hi, some q => decide (lo ≤ q) && decide (q ≤ hi)
  | _, _, _ => false

theorem le_finite (a b : ℚ) : F64.le (.finite a) (.finite b) = decide (a ≤ b) := by
  grind [F64.le, F64.ne, F64.gt]

theorem between_infinite {x : F64} (h : x.toRat = none) (lo hi : ℚ) :
    (F64.le (.finite lo) x && F64.le x (.finite hi)) = false := by
  cases x with
  | finite q => cases h
  | infinite neg => cases neg <;> rfl
  | nan => rfl

section Matching
variable {py : PyText}

theorem float_bound {v : Option Value} (h : Bound v) :
    (∃ q, boundOf v = some q ∧ Exact.float py (v.getD (.int 0)) = .ok (.finite q)) ∨
      boundOf v = none ∧ Exact.float py (v.getD (.int 0)) = .error .typeError := by
  rcases h with (rfl | ⟨n, rfl⟩ | ⟨q, rfl⟩) | rfl
  · exact Or.inl ⟨0, rfl, congrArg (fun q : ℚ => Except.ok (F64.finite q)) Int.cast_zero⟩
  · exact Or.inl ⟨n, rfl, rfl⟩
  · exact Or.inl ⟨q, rfl, rfl⟩
  · exact Or.inr ⟨rfl, rfl⟩

theorem float_value (v : Value) : (∃ x, Exact.float py v = .ok x) ∨
    Exact.float py v = .error .typeError ∨ Exact.float py v = .error .valueError := by
  cases v with
  | null => exact Or.inr (Or.inl rfl)
  | list vs => exact Or.inr (Or.inl rfl)
  | dict kvs => exact Or.inr (Or.inl rfl)
  | bool b => exact Or.inl ⟨_, rfl⟩
  | int n => exact Or.inl ⟨_, rfl⟩
  | float q => exact Or.inl ⟨_, rfl⟩
  | inf neg => exact Or.inl ⟨_, rfl⟩
  | str s => grind [Exact.float]

theorem inBounds_none (range : Value) : inBounds range none = false := by simp [inBounds]

variable {kvs : Dict} {value range : Value}

theorem inRange_tested {b : Bool}
    (hdict : range.asDict = some kvs) (h : rangeTestOver (exact py) value range = .ok b) :
    inRangeOver (exact py) value range = .ok b := by
  simp only [inRangeOver, hdict, h]

theorem inRange_passed {e : PyError}
    (hdict : range.asDict = some kvs) (h : rangeTestOver (exact py) value range = .error e)
    (he : e = .typeError ∨ e = .valueError) : inRangeOver (exact py) value range = .ok false := by
  rcases he with rfl | rfl
  · simp only [inRangeOver, hdict, h]
  · simp only [inRangeOver, hdict, h]

theorem inRange_bounds (hdict : range.asDict = some kvs)
    (hmin : Bound (range.field "min")) (hmax : Bound (range.field "max")) :
    inRangeOver (exact py) value range = .ok (inBounds range (serverNumber py value)) := by
  have htest : rangeTestOver (exact py) value range = (do
      let lo ← Exact.float py ((range.field "min").getD (.int 0))
      let v ← Exact.float py value
      if F64.le lo v then
        (Exact.float py ((range.field "max").getD (.int 0))).map (F64.le v)
      else .ok false) := rfl
  rcases float_bound hmin with ⟨lo, hlo, hfloat⟩ | ⟨hlo, hfloat⟩
  · rcases float_value value with ⟨x, hx⟩ | hx
    · have hnumber : serverNumber py value = x.toRat := by
        unfold serverNumber
        rw [hx]
        rfl
      have hbetween : ∀ hi, boundOf (range.field "max") = some hi →
          (F64.le (.finite lo) x && F64.le x (.finite hi)) =
            inBounds range (serverNumber py value) := by
        intro hi hhi
        unfold inBounds
        rw [hlo, hhi, hnumber]
        cases x with
        | finite q =>
          rw [le_finite, le_finite]
          rfl
        | infinite neg => exact between_infinite rfl lo hi
        | nan => exact between_infinite rfl lo hi
      rw [hfloat, hx] at htest
      rcases float_bound hmax with ⟨hi, hhi, hfloat'⟩ | ⟨hhi, hfloat'⟩
      · rw [hfloat'] at htest
        rw [← hbetween hi hhi]
        refine inRange_tested hdict (htest.trans ?_)
        show (if F64.le (.finite lo) x = true then Except.ok (F64.le x (.finite hi))
          else .ok false) = _
        cases F64.le (.finite lo) x <;> rfl
      · have hfalse : inBounds range (serverNumber py value) = false := by
          unfold inBounds
          rw [hlo, hhi]
        rw [hfloat'] at htest
        rw [hfalse]
        cases hle : F64.le (.finite lo) x with
        | true =>
          refine inRange_passed hdict (htest.trans ?_) (Or.inl rfl)
          exact if_pos hle
        | false =>
          refine inRange_tested hdict (htest.trans ?_)
          exact if_neg (by rw [hle]; decide)
    · have hnumber : serverNumber py value = none := by
        unfold serverNumber
        rcases hx with hx | hx <;> rw [hx] <;> rfl
      rw [hfloat] at htest
      rw [hnumber, inBounds_none]
      rcases hx with hx | hx
      · rw [hx] at htest
        exact inRange_passed hdict htest (Or.inl rfl)
      · rw [hx] at htest
        exact inRange_passed hdict htest (Or.inr rfl)
  · have hfalse : inBounds range (serverNumber py value) = false := by
      unfold inBounds
      rw [hlo]
    rw [hfloat] at htest
    rw [hfalse]
    exact inRange_passed hdict htest (Or.inl rfl)

def objects (vs : List Value) : List Dict := vs.filterMap Value.asDict

theorem asDict_eq {v : Value} (h : v.asDict = some kvs) : v = .dict kvs := by
  cases v with
  | dict kvs' => rw [Option.some.inj h]
  | _ => cases h

theorem active_found {ranges : List Value} {found : Option Value}
    (hmin : ∀ r ∈ ranges, Bound (r.field "min")) (hmax : ∀ r ∈ ranges, Bound (r.field "max"))
    (h : activeRangeOver (exact py) value ranges = .ok found) :
    found = ((objects ranges).find? fun kvs =>
      inBounds (.dict kvs) (serverNumber py value)).map .dict := by
  induction ranges with
  | nil =>
    cases h
    rfl
  | cons range ranges ih =>
    unfold activeRangeOver at h
    cases hdict : range.asDict with
    | none =>
      rw [show inRangeOver (exact py) value range = .error .attributeError by
        simp only [inRangeOver, hdict]] at h
      cases h
    | some kvs =>
      rw [inRange_bounds hdict (hmin range List.mem_cons_self) (hmax range List.mem_cons_self)] at h
      rw [objects, List.filterMap_cons_some hdict, List.find?_cons, ← asDict_eq hdict]
      cases hin : inBounds range (serverNumber py value) with
      | true =>
        rw [hin] at h
        cases h
        rw [Option.map_some, ← asDict_eq hdict]
      | false =>
        rw [hin] at h
        exact ih (fun r hr => hmin r (List.mem_cons_of_mem _ hr))
          (fun r hr => hmax r (List.mem_cons_of_mem _ hr)) h

theorem bound_read {key : String} (h : Bound ((Value.dict kvs).field key)) :
    (∃ q, boundOf ((Value.dict kvs).field key) = some q ∧
      (ScoreBound.fromJson kvs key).matchable = true ∧
      (ScoreBound.fromJson kvs key).value.getD (.finite 0) = .finite q) ∨
    boundOf ((Value.dict kvs).field key) = none ∧
      (ScoreBound.fromJson kvs key).matchable = false := by
  unfold ScoreBound.fromJson
  have hfield : (Value.dict kvs).field key = kvs.lookup key := rfl
  rw [hfield] at h ⊢
  rcases h with (h | ⟨n, h⟩ | ⟨q, h⟩) | h
  · rw [h]
    exact Or.inl ⟨0, rfl, rfl, rfl⟩
  · rw [h]
    exact Or.inl ⟨n, rfl, rfl, rfl⟩
  · rw [h]
    exact Or.inl ⟨q, rfl, rfl, rfl⟩
  · rw [h]
    exact Or.inr ⟨rfl, rfl⟩

theorem covers_bounds (hmin : Bound ((Value.dict kvs).field "min"))
    (hmax : Bound ((Value.dict kvs).field "max")) (x : F64) :
    covers (ScoreBound.fromJson kvs "min").value (ScoreBound.fromJson kvs "max").value
        ((ScoreBound.fromJson kvs "min").matchable && (ScoreBound.fromJson kvs "max").matchable) x =
      inBounds (.dict kvs) x.toRat := by
  unfold covers inBounds
  rcases bound_read hmin with ⟨lo, hlo, hm, hv⟩ | ⟨hlo, hm⟩
  · rcases bound_read hmax with ⟨hi, hhi, hm', hv'⟩ | ⟨hhi, hm'⟩
    · rw [hlo, hhi, hm, hm', hv, hv']
      cases x with
      | finite q =>
        rw [le_finite, le_finite]
        rfl
      | infinite neg => exact between_infinite rfl lo hi
      | nan => exact between_infinite rfl lo hi
    · rw [hlo, hhi, hm, hm']
      rfl
  · rw [hlo, hm]
    rfl

theorem device_found {α : Type} (read : Dict → α) (test : α → F64 → Bool) {ranges : List Dict}
    (htest : ∀ kvs ∈ ranges, ∀ x, test (read kvs) x = inBounds (.dict kvs) x.toRat)
    (value : Value) : ((pythonFloat value).bind fun x => (ranges.map read).find? (test · x)) =
      (ranges.find? fun kvs => inBounds (.dict kvs) (deviceNumber value)).map read := by
  have hnone : (ranges.find? fun kvs => inBounds (.dict kvs) none).map read = none := by
    rw [List.find?_eq_none.2 fun kvs _ => by rw [inBounds_none]; decide]
    rfl
  unfold deviceNumber
  cases pythonFloat value with
  | none => exact hnone.symm
  | some x => simp_all

end Matching

end RuleMind.DartScore
