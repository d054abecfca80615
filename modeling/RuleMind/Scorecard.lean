/-
  Scorecards: `evaluate_scorecard` of `app/logic.py`.

  Floats are doubles, with every operation rounded.  The logarithm and the evaluator of
  formulas are parameters (`Formulas`); the constant `log(2)` is the double it stands for.
-/
import RuleMind.Compare
import RuleMind.RuleTree
import RuleMind.DecisionCore

namespace RuleMind

open Text (F64 roundF64 halfEven)
open RuleTree (iterate)

/-! ### Arithmetic of doubles -/

namespace F64

def ofRat (q : ℚ) : F64 :=
  match roundF64 q with
  | some r => .finite r
  | none => .infinite (q < 0)

def add : F64 → F64 → F64
  | .nan, _ | _, .nan => .nan
  | .finite a, .finite b => ofRat (a + b)
  | .infinite s, .infinite t => if s = t then .infinite s else .nan
  | .infinite s, .finite _ | .finite _, .infinite s => .infinite s

def neg : F64 → F64
  | .finite a => .finite (-a)
  | .infinite s => .infinite (!s)
  | .nan => .nan

def mul : F64 → F64 → F64
  | .nan, _ | _, .nan => .nan
  | .finite a, .finite b => ofRat (a * b)
  | .infinite s, .infinite t => .infinite (s != t)
  | .infinite s, .finite b | .finite b, .infinite s =>
    if b = 0 then .nan else .infinite (s != decide (b < 0))

def divPos (a : F64) (b : ℚ) : F64 :=
  match a with
  | .finite a => ofRat (a / b)
  | a => a

/-- `round(x)`. -/
def round : F64 → Except PyError ℤ
  | .finite q => .ok (halfEven q)
  | .infinite _ => .error .overflowError
  | .nan => .error .valueError

end F64

/-! ### Factors -/

section Factors
variable (py : PyText)

/-- `get(key, default)` on an object. -/
def getOr (v : Value) (key : String) (default : Value) : Value := (v.field key).getD default

/-- `float(r.get("min", 0)) <= float(value) <= float(r.get("max", 0))`. -/
def rangeTest (value range : Value) : Except PyError Bool := do
  let lo ← pyFloatOf py (getOr range "min" (.int 0))
  let v ← pyFloatOf py value
  if F64.le lo v then
    (pyFloatOf py (getOr range "max" (.int 0))).map (F64.le v)
  else
    .ok false

/-- A range with bounds that are no numbers is passed over. -/
def inRange (value range : Value) : Except PyError Bool :=
  match range.asDict with
  | none => .error .attributeError
  | some _ =>
    match rangeTest py value range with
    | .error .typeError | .error .valueError => .ok false
    | r => r

def activeRange (value : Value) : List Value → Except PyError (Option Value)
  | [] => .ok none
  | range :: ranges => do
    if ← inRange py value range then
      .ok (some range)
    else
      activeRange value ranges

/-- `int(range.get("points", 0)) if range else 0`. -/
def rangePoints (range : Option Value) : Except PyError ℤ :=
  match range.filter Value.truthy with
  | some r => pyIntOf py (getOr r "points" (.int 0))
  | none => .ok 0

/-- `float(range.get(key, 0)) if range else 0.0`. -/
def rangeNumber (key : String) (range : Option Value) : Except PyError F64 :=
  match range.filter Value.truthy with
  | some r => pyFloatOf py (getOr r key (.int 0))
  | none => .ok (.finite 0)

/-- `int(points * weight)`. -/
def weigh (points : ℤ) (weight : F64) : Except PyError ℤ :=
  match roundF64 points with
  | some p => truncF64 (F64.mul (.finite p) weight)
  | none => .error .overflowError

/-- An entry of the breakdown, with the evidence it rests on. -/
structure FactorResult where
  variableId : Value
  value : Value
  activeRange : Option Value
  points : ℤ
  weightedPoints : ℤ
  weight : F64
  woeRange : Option Value
  woe : F64
  iv : F64
  coefficient : F64

def evaluateFactor (vars : Dict) (factor : Value) : Except PyError FactorResult :=
  match factor.asDict with
  | none => .error .attributeError
  | some _ => do
    let variableId := getOr factor "variable_id" .null
    let found ← pyGet vars variableId
    let value := found.getD (.int 0)
    let weight ← pyFloatOf py (getOr factor "weight" (.float 1))
    let coefficient ← pyFloatOf py (getOr factor "coefficient" (.float 0))
    let ranges ← iterate (factor.field "ranges")
    let active ← activeRange py value ranges
    let woeRanges ← iterate (some (Value.orElse (factor.field "woe_values") (.list [])))
    let activeWoe ← activeRange py value woeRanges
    let points ← rangePoints py active
    let weightedPoints ← weigh points weight
    let woe ← rangeNumber py "woe" activeWoe
    let iv ← rangeNumber py "iv" activeWoe
    .ok ⟨variableId, value, active, points, weightedPoints, weight, activeWoe, woe, iv, coefficient⟩

end Factors

/-! ### The score -/

/-- What a formula may refer to; a metric knows the score and the information value too. -/
structure FormulaContext where
  baseScore : ℤ
  maxScore : ℤ
  totalPoints : ℤ
  totalWoeScore : F64
  vars : Dict
  entries : List (Value × Value)
  score : Option ℤ
  totalIv : Option F64

/-- `math.log` on what is positive, and `_evaluate_formula`; nothing for what is not a number. -/
structure Formulas where
  log : F64 → F64
  formula : Value → FormulaContext → Except PyError (Option Value)

/-- `math.log(2)`. -/
def LOG_TWO : ℚ := 6243314768165359 / 2 ^ 53

/-- `max(0, min(max_score, score))`. -/
def clampScore (maxScore score : ℤ) : ℤ := max 0 (min maxScore score)

structure MetricResult where
  name : Value
  value : Option Value
  unit : Value
  category : Value

structure ScorecardResult where
  score : ℤ
  baseScore : ℤ
  maxScore : ℤ
  scoringMethod : Value
  breakdown : List FactorResult
  informationValue : F64
  metrics : List MetricResult

section Scores
variable (py : PyText) (fs : Formulas)

def woeScore (card : Value) (maxScore : ℤ) (totalWoe : F64) : Except PyError ℤ := do
  let intercept ← pyFloatOf py (getOr card "intercept" (.int 0))
  let pdo ← pyFloatOf py (getOr card "pdo" (.int 20))
  let targetScore ← pyFloatOf py (getOr card "target_score" (.int 600))
  let targetOdds ← pyFloatOf py (getOr card "target_odds" (.int 50))
  let factor := if F64.gt pdo (.finite 0) then F64.divPos pdo LOG_TWO else .finite 1
  let offset := if F64.gt targetOdds (.finite 0) then
      F64.add targetScore (F64.neg (F64.mul factor (fs.log targetOdds))) else targetScore
  let raw := F64.add offset (F64.mul factor (F64.add intercept totalWoe))
  (F64.round raw).map (clampScore maxScore)

/-- The score by a formula; what yields no number counts as the base score. -/
def formulaScore (card : Value) (ctx : FormulaContext) : Except PyError ℤ := do
  let result ← fs.formula (getOr card "formula" (.str "base_score + total_points")) ctx
  let score ← match result with
    | none => .error .valueError
    | some (.int n) => .ok n
    | some (.bool b) => pyIntOf py (.bool b)
    | some (.float q) => pyIntOf py (.float q)
    | some (.inf neg) => pyIntOf py (.inf neg)
    | some _ => .ok ctx.baseScore
  .ok (clampScore ctx.maxScore score)

/-- `metrics_results[name] = …`: a name has one metric, in the place of its first. -/
def addMetric : List MetricResult → MetricResult → List MetricResult
  | [], m => [m]
  | n :: ms, m => if pyEq n.name m.name then { m with name := n.name } :: ms else n :: addMetric ms m

def evaluateMetric (ctx : FormulaContext) (ms : List MetricResult) (metric : Value) :
    Except PyError (List MetricResult) :=
  match metric.asDict with
  | none => .error .attributeError
  | some _ => do
    let value ← fs.formula (getOr metric "formula" (.str "0")) ctx
    match getOr metric "name" (.str "unnamed") with
    | .list _ | .dict _ => .error .typeError
    | name => .ok (addMetric ms ⟨name, value, getOr metric "unit" (.str ""),
        getOr metric "category" (.str "financial")⟩)

def evaluateScorecard (vars : Dict) (card : Value) : Except PyError ScorecardResult :=
  match card.asDict with
  | none => .error .attributeError
  | some _ => do
    let baseScore ← pyIntOf py (getOr card "base_score" (.int 300))
    let maxScore ← pyIntOf py (getOr card "max_score" (.int 900))
    let method := getOr card "scoring_method" (.str "points")
    let bins ← iterate (card.field "bins")
    let breakdown ← bins.mapM (evaluateFactor py vars)
    let ctx : FormulaContext := {
      baseScore, maxScore
      totalPoints := (breakdown.map FactorResult.weightedPoints).sum
      totalWoeScore := (breakdown.map fun f => F64.mul f.coefficient f.woe).foldl F64.add (.finite 0)
      vars
      entries := breakdown.map fun f => (f.variableId, f.value)
      score := none
      totalIv := none }
    let totalIv := (breakdown.map FactorResult.iv).foldl F64.add (.finite 0)
    let score ←
      if method = .str "woe" then woeScore py fs card maxScore ctx.totalWoeScore
      else if method = .str "formula" then formulaScore py fs card ctx
      else .ok (clampScore maxScore (baseScore + ctx.totalPoints))
    let metrics ← iterate (some (Value.orElse (card.field "metrics") (.list [])))
    let metrics ← metrics.foldlM
      (evaluateMetric fs { ctx with score := some score, totalIv := some totalIv }) []
    .ok ⟨score, baseScore, maxScore, method, breakdown, totalIv, metrics⟩

def scorecardFields : List String :=
  ["base_score", "max_score", "scoring_method", "bins", "intercept", "pdo", "target_score",
    "target_odds", "formula", "metrics"]

theorem evaluateScorecard_congr {vars : Dict} {card card' : Value}
    (hdict : card.asDict.isSome = card'.asDict.isSome)
    (h : ∀ key ∈ scorecardFields, card.field key = card'.field key) :
    evaluateScorecard py fs vars card = evaluateScorecard py fs vars card' := by
  have hget : ∀ key ∈ scorecardFields, ∀ v, getOr card key v = getOr card' key v := by
    intro key hkey v
    unfold getOr
    rw [h key hkey]
  have hwoe : ∀ n x, woeScore py fs card n x = woeScore py fs card' n x := by
    intro n x
    unfold woeScore
    rw [hget "intercept" (by decide), hget "pdo" (by decide), hget "target_score" (by decide),
      hget "target_odds" (by decide)]
  have hformula : ∀ ctx, formulaScore py fs card ctx = formulaScore py fs card' ctx := by
    intro ctx
    unfold formulaScore
    rw [hget "formula" (by decide)]
  unfold evaluateScorecard
  rw [hget "base_score" (by decide), hget "max_score" (by decide),
    hget "scoring_method" (by decide), h "bins" (by decide), h "metrics" (by decide)]
  grind

end Scores

end RuleMind
