/-
  Scorecards on the device: `Scorecard.fromJson` of `models.dart` and `ScorecardEvaluator` of
  `scorecard_evaluator.dart`, over exact arithmetic, beside the evaluation of the server.

  Both look formulas up in one evaluator; the score by weights of evidence, which rests on a
  logarithm, is a parameter.
-/
import RuleMind.ExactScorecard
import RuleMind.VariableVm

namespace RuleMind.DartScore

open Text (F64 trimBy sign readNat readDecimal)

/-! ### Numbers -/

/-- `double.tryParse(value.trim())`, exactly. -/
def tryParse (s : String) : Option F64 :=
  let (neg, cs) := sign (trimBy VarCode.Dart.space s.toList)
  if cs = "Infinity".toList then some (.infinite neg)
  else if cs = "NaN".toList then some .nan
  else (readDecimal cs).map fun q => .finite (if neg then -q else q)

def hexDigit (c : Char) : Option ℕ :=
  if c.isDigit then some (c.toNat - 48)
  else if 'a' ≤ c ∧ c ≤ 'f' then some (c.toNat - 87)
  else if 'A' ≤ c ∧ c ≤ 'F' then some (c.toNat - 55)
  else none

/-- `int.tryParse(value.trim())`: decimal digits, or hexadecimal ones behind `0x`. -/
def intTryParse (s : String) : Option ℤ :=
  let (neg, cs) := sign (trimBy VarCode.Dart.space s.toList)
  let magnitude := match cs with
    | '0' :: 'x' :: ds | '0' :: 'X' :: ds =>
      if ds = [] then none
      else ds.foldlM (fun n d => (hexDigit d).map fun k => 16 * n + k) 0
    | cs => readNat cs
  magnitude.map fun n => if neg then -(n : ℤ) else n

/-- `num.truncate`. -/
def truncRat (q : ℚ) : ℤ := Int.tdiv q.num q.den

/-- `_asInt`; an infinity has no `toInt` and throws. -/
def asInt : Option Value → Option (Option ℤ)
  | some (.int n) => some (some n)
  | some (.float q) => some (some (truncRat q))
  | some (.inf _) => none
  | some (.str s) => some (intTryParse s)
  | _ => some none

def asDouble : Option Value → Option F64
  | some (.int n) => some (.finite n)
  | some (.float q) => some (.finite q)
  | some (.inf neg) => some (.infinite neg)
  | some (.str s) => tryParse s
  | _ => none

def pythonFloat : Value → Option F64
  | .bool b => some (.finite (if b then 1 else 0))
  | .int n => some (.finite n)
  | .float q => some (.finite q)
  | .inf neg => some (.infinite neg)
  | .str s => tryParse s
  | _ => none

def truncate : F64 → ℤ
  | .finite q => truncRat q
  | _ => 0

/-! ### Documents -/

/-- `a ?? b`. -/
def orElse (a b : Option Value) : Option Value :=
  match a with
  | none | some .null => b
  | a => a

/-- `as String?`; a cast that fails throws. -/
def asText : Option Value → Option (Option String)
  | none | some .null => some none
  | some (.str s) => some (some s)
  | _ => none

/-- `(… as List<dynamic>? ?? const []).whereType<Map<String, dynamic>>()`. -/
def asMaps : Option Value → Option (List Dict)
  | none | some .null => some []
  | some (.list vs) => some (vs.filterMap Value.asDict)
  | _ => none

structure ScoreBound where
  value : Option F64
  matchable : Bool

def ScoreBound.fromJson (json : Dict) (key : String) : ScoreBound :=
  match json.lookup key with
  | none => ⟨none, true⟩
  | some (.int n) => ⟨some (.finite n), true⟩
  | some (.float q) => ⟨some (.finite q), true⟩
  | some (.inf neg) => ⟨some (.infinite neg), true⟩
  | some (.str s) => ⟨tryParse s, (tryParse s).isSome⟩
  | some _ => ⟨none, false⟩

structure ScoreRange where
  min : Option F64
  max : Option F64
  points : ℤ
  matchable : Bool

def ScoreRange.fromJson (json : Dict) : Option ScoreRange := do
  let lower := ScoreBound.fromJson json "min"
  let upper := ScoreBound.fromJson json "max"
  let points ← asInt (json.lookup "points")
  return ⟨lower.value, upper.value, points.getD 0, lower.matchable && upper.matchable⟩

structure WoeRange where
  min : Option F64
  max : Option F64
  woe : F64
  iv : F64
  matchable : Bool

def WoeRange.fromJson (json : Dict) : WoeRange :=
  let lower := ScoreBound.fromJson json "min"
  let upper := ScoreBound.fromJson json "max"
  ⟨lower.value, upper.value, (asDouble (json.lookup "woe")).getD (.finite 0),
    (asDouble (json.lookup "iv")).getD (.finite 0), lower.matchable && upper.matchable⟩

structure ScorecardMetric where
  name : String
  formula : String
  unit : String
  category : String

def ScorecardMetric.fromJson (json : Dict) : Option ScorecardMetric := do
  let name ← asText (json.lookup "name")
  let formula ← asText (json.lookup "formula")
  let unit ← asText (json.lookup "unit")
  let category ← asText (json.lookup "category")
  return ⟨name.getD "unnamed", formula.getD "0", unit.getD "", category.getD "financial"⟩

structure ScoreFactor where
  variableId : Option String
  ranges : List ScoreRange
  weight : F64
  coefficient : F64
  woeValues : List WoeRange

def ScoreFactor.fromJson (json : Dict) : Option ScoreFactor := do
  let variableId ← asText (orElse (json.lookup "variableId") (json.lookup "variable_id"))
  let ranges ← asMaps (json.lookup "ranges")
  let ranges ← ranges.mapM ScoreRange.fromJson
  let woeValues ← asMaps (orElse (json.lookup "woeValues") (json.lookup "woe_values"))
  return ⟨variableId, ranges, (asDouble (json.lookup "weight")).getD (.finite 1),
    (asDouble (json.lookup "coefficient")).getD (.finite 0), woeValues.map WoeRange.fromJson⟩

structure Scorecard where
  id : String
  name : String
  baseScore : ℤ
  maxScore : ℤ
  bins : List ScoreFactor
  scoringMethod : String
  intercept : F64
  pdo : F64
  targetScore : F64
  targetOdds : F64
  formula : Option String
  metrics : List ScorecardMetric

def Scorecard.fromJson (json : Dict) : Option Scorecard := do
  let id ← asText (json.lookup "id")
  let name ← asText (json.lookup "name")
  let baseScore ← asInt (orElse (json.lookup "baseScore") (json.lookup "base_score"))
  let maxScore ← asInt (orElse (json.lookup "maxScore") (json.lookup "max_score"))
  let scoringMethod ← asText (orElse (json.lookup "scoringMethod") (json.lookup "scoring_method"))
  let formula ← asText (json.lookup "formula")
  let metrics ← asMaps (json.lookup "metrics")
  let metrics ← metrics.mapM ScorecardMetric.fromJson
  let bins ← asMaps (json.lookup "bins")
  let bins ← bins.mapM ScoreFactor.fromJson
  return {
    id := id.getD ""
    name := name.getD ""
    baseScore := baseScore.getD 300
    maxScore := maxScore.getD 900
    scoringMethod := scoringMethod.getD "points"
    intercept := (asDouble (json.lookup "intercept")).getD (.finite 0)
    pdo := (asDouble (json.lookup "pdo")).getD (.finite 20)
    targetScore := (asDouble (orElse (json.lookup "targetScore")
      (json.lookup "target_score"))).getD (.finite 600)
    targetOdds := (asDouble (orElse (json.lookup "targetOdds")
      (json.lookup "target_odds"))).getD (.finite 50)
    formula, metrics, bins }

/-- What the names of a formula are bound to; a bound value may be no number. -/
abbrev Names := String → Option (Option Value)

/-- The evaluator of formulas that both sides have; what it raises is no `FormulaError`. -/
abbrev FormulaEvaluator := String → Names → Except PyError (Option Value)

def constants : List (String × Option Value) :=
  [("True", some (.bool true)), ("False", some (.bool false)), ("None", some .null)]

/-- The bindings of a map that is filled in this order, and the constants behind them. -/
def scope (base entries : List (String × Option Value)) : Names := fun name =>
  (entries.reverse.lookup name).or ((base.reverse.lookup name).or (constants.lookup name))

/-- An entry binds its variable, where that has a name. -/
def binding (entry : Value × Value) : Option (String × Option Value) :=
  match entry.1 with
  | .str id => some (id, some entry.2)
  | _ => none

def serverNames (c : FormulaContext) : Names :=
  scope ((c.score.map fun n => ("score", some (Value.int n))).toList ++
    [("base_score", some (Value.int c.baseScore)), ("max_score", some (Value.int c.maxScore)),
      ("total_points", some (Value.int c.totalPoints)),
      ("total_woe_score", F64.toValue c.totalWoeScore)] ++
    (c.totalIv.map fun x => ("total_iv", F64.toValue x)).toList ++
    [("variables", some (Value.dict c.vars))]) (c.entries.filterMap binding)

/-- `_evaluate_formula`: what is no text does not parse. -/
def serverFormula (E : FormulaEvaluator) : Value → FormulaContext → Except PyError (Option Value)
  | .str s, c => E s (serverNames c)
  | _, _ => .error .typeError

/-! ### The evaluator of the device -/

structure BreakdownEntry where
  variableId : Option String
  value : Value
  points : ℤ
  weightedPoints : ℤ
  weight : F64
  woe : F64
  iv : F64
  coefficient : F64

/-- `range.matchable && numericValue >= range.lowerBound && numericValue <= range.upperBound`. -/
def covers (min max : Option F64) (matchable : Bool) (x : F64) : Bool :=
  matchable && F64.le (min.getD (.finite 0)) x && F64.le x (max.getD (.finite 0))

def evaluateFactor (vars : Dict) (factor : ScoreFactor) : BreakdownEntry :=
  let value := (factor.variableId.bind fun id => vars.lookup id).getD (.int 0)
  let active := (pythonFloat value).bind fun x =>
    factor.ranges.find? fun range => covers range.min range.max range.matchable x
  let activeWoe := (pythonFloat value).bind fun x =>
    factor.woeValues.find? fun range => covers range.min range.max range.matchable x
  let points := (active.map ScoreRange.points).getD 0
  ⟨factor.variableId, value, points, truncate (Exact.mul (.finite points) factor.weight),
    factor.weight, (activeWoe.map WoeRange.woe).getD (.finite 0),
    (activeWoe.map WoeRange.iv).getD (.finite 0), factor.coefficient⟩

/-- `_formulaContext`. -/
def formulaNames (card : Scorecard) (vars : Dict) (breakdown : List BreakdownEntry)
    (totalPoints : ℤ) (totalWoeScore : F64) (extraBase : List (String × Option Value)) : Names :=
  scope (extraBase ++ [("base_score", some (Value.int card.baseScore)),
    ("max_score", some (Value.int card.maxScore)), ("total_points", some (Value.int totalPoints)),
    ("total_woe_score", F64.toValue totalWoeScore), ("variables", some (Value.dict vars))])
    (breakdown.filterMap fun entry => entry.variableId.map fun id => (id, some entry.value))

structure MetricEntry where
  name : String
  value : Option Value
  unit : String
  category : String

/-- `metrics[name] = …`. -/
def setMetric : List MetricEntry → MetricEntry → List MetricEntry
  | [], m => [m]
  | n :: ms, m => if n.name = m.name then m :: ms else n :: setMetric ms m

structure DeviceResult where
  score : ℤ
  baseScore : ℤ
  maxScore : ℤ
  scoringMethod : String
  breakdown : List BreakdownEntry
  informationValue : F64
  metrics : List MetricEntry

def formulaRaw (baseScore : ℤ) : Option Value → ℤ
  | some (.bool b) => if b then 1 else 0
  | some (.int n) => n
  | some (.float q) => truncRat q
  | some (.inf _) | none => 0
  | some _ => baseScore

def rawScore (E : FormulaEvaluator) (woeRaw : Scorecard → F64 → ℤ) (card : Scorecard)
    (totalPoints : ℤ) (totalWoeScore : F64) (names : Names) : Except PyError ℤ :=
  if card.scoringMethod = "woe" then .ok (woeRaw card totalWoeScore)
  else if card.scoringMethod = "formula" then
    (E (card.formula.getD "base_score + total_points") names).map (formulaRaw card.baseScore)
  else .ok (card.baseScore + totalPoints)

def evaluateMetric (E : FormulaEvaluator) (names : Names) (ms : List MetricEntry)
    (metric : ScorecardMetric) : Except PyError (List MetricEntry) :=
  (E metric.formula names).map fun value =>
    setMetric ms ⟨metric.name, value, metric.unit, metric.category⟩

def evaluate (E : FormulaEvaluator) (woeRaw : Scorecard → F64 → ℤ) (card : Scorecard)
    (vars : Dict) : Except PyError DeviceResult := do
  let breakdown := card.bins.map (evaluateFactor vars)
  let totalPoints := (breakdown.map BreakdownEntry.weightedPoints).sum
  let totalIv := (breakdown.map BreakdownEntry.iv).foldl Exact.add (.finite 0)
  let totalWoeScore :=
    (breakdown.map fun entry => Exact.mul entry.coefficient entry.woe).foldl Exact.add (.finite 0)
  let raw ← rawScore E woeRaw card totalPoints totalWoeScore
    (formulaNames card vars breakdown totalPoints totalWoeScore [])
  let score := clampScore card.maxScore raw
  let names := formulaNames card vars breakdown totalPoints totalWoeScore
    [("score", some (.int score)), ("total_iv", F64.toValue totalIv)]
  let metrics ← card.metrics.foldlM (evaluateMetric E names) []
  .ok ⟨score, card.baseScore, card.maxScore, card.scoringMethod, breakdown, totalIv, metrics⟩

end RuleMind.DartScore
