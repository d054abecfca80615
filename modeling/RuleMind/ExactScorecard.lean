/-
  Scorecards over an arithmetic of one's choice: `evaluate_scorecard` of `app/logic.py` with
  the reading of numbers, the product and the sum as parameters.
-/
import RuleMind.Scorecard

namespace RuleMind

open Text (F64 sign readDecimal lowerCase)
open RuleTree (iterate)

/-! ### Arithmetics -/

structure Arithmetic where
  float : Value → Except PyError F64
  weigh : ℤ → F64 → Except PyError ℤ
  mul : F64 → F64 → F64
  add : F64 → F64 → F64

namespace Exact

/-- The number a text stands for, before it is rounded. -/
def readNumber (cs : List Char) : Option F64 :=
  let (neg, cs) := sign cs
  if lowerCase cs = "inf".toList ∨ lowerCase cs = "infinity".toList then some (.infinite neg)
  else if lowerCase cs = "nan".toList then some .nan
  else (readDecimal cs).map fun q => .finite (if neg then -q else q)

/-- `float(value)`, exactly. -/
def float (py : PyText) : Value → Except PyError F64
  | .int n => .ok (.finite n)
  | .bool b => .ok (.finite (if b then 1 else 0))
  | .float q => .ok (.finite q)
  | .inf neg => .ok (.infinite neg)
  | .str s => match (py.numeral s).bind readNumber with
    | some x => .ok x
    | none => .error .valueError
  | .null | .list _ | .dict _ => .error .typeError

def add : F64 → F64 → F64
  | .nan, _ | _, .nan => .nan
  | .finite a, .finite b => .finite (a + b)
  | .infinite s, .infinite t => if s = t then .infinite s else .nan
  | .infinite s, .finite _ | .finite _, .infinite s => .infinite s

def mul : F64 → F64 → F64
  | .nan, _ | _, .nan => .nan
  | .finite a, .finite b => .finite (a * b)
  | .infinite s, .infinite t => .infinite (s != t)
  | .infinite s, .finite b | .finite b, .infinite s =>
    if b = 0 then .nan else .infinite (s != decide (b < 0))

/-- `int(points * weight)`, exactly. -/
def weigh (points : ℤ) (weight : F64) : Except PyError ℤ := truncF64 (mul (.finite points) weight)

end Exact

def exact (py : PyText) : Arithmetic := ⟨Exact.float py, Exact.weigh, Exact.mul, Exact.add⟩

/-! ### The evaluation -/

section Evaluation
variable (A : Arithmetic)

def rangeTestOver (value range : Value) : Except PyError Bool := do
  let lo ← A.float (getOr range "min" (.int 0))
  let v ← A.float value
  if F64.le lo v then
    (A.float (getOr range "max" (.int 0))).map (F64.le v)
  else
    .ok false

def inRangeOver (value range : Value) : Except PyError Bool :=
  match range.asDict with
  | none => .error .attributeError
  | some _ =>
    match rangeTestOver A value range with
    | .error .typeError | .error .valueError => .ok false
    | r => r

def activeRangeOver (value : Value) : List Value → Except PyError (Option Value)
  | [] => .ok none
  | range :: ranges => do
    if ← inRangeOver A value range then
      .ok (some range)
    else
      activeRangeOver value ranges

def rangeNumberOver (key : String) (range : Option Value) : Except PyError F64 :=
  match range.filter Value.truthy with
  | some r => A.float (getOr r key (.int 0))
  | none => .ok (.finite 0)

def evaluateFactorOver (py : PyText) (vars : Dict) (factor : Value) : Except PyError FactorResult :=
  match factor.asDict with
  | none => .error .attributeError
  | some _ => do
    let variableId := getOr factor "variable_id" .null
    let found ← pyGet vars variableId
    let value := found.getD (.int 0)
    let weight ← A.float (getOr factor "weight" (.float 1))
    let coefficient ← A.float (getOr factor "coefficient" (.float 0))
    let ranges ← iterate (factor.field "ranges")
    let active ← activeRangeOver A value ranges
    let woeRanges ← iterate (some (Value.orElse (factor.field "woe_values") (.list [])))
    let activeWoe ← activeRangeOver A value woeRanges
    let points ← rangePoints py active
    let weightedPoints ← A.weigh points weight
    let woe ← rangeNumberOver A "woe" activeWoe
    let iv ← rangeNumberOver A "iv" activeWoe
    .ok ⟨variableId, value, active, points, weightedPoints, weight, activeWoe, woe, iv, coefficient⟩

def formulaContext (baseScore maxScore : ℤ) (vars : Dict) (breakdown : List FactorResult) :
    FormulaContext where
  baseScore := baseScore
  maxScore := maxScore
  totalPoints := (breakdown.map FactorResult.weightedPoints).sum
  totalWoeScore := (breakdown.map fun f => A.mul f.coefficient f.woe).foldl A.add (.finite 0)
  vars := vars
  entries := breakdown.map fun f => (f.variableId, f.value)
  score := none
  totalIv := none

def totalIvOver (breakdown : List FactorResult) : F64 :=
  (breakdown.map FactorResult.iv).foldl A.add (.finite 0)

def scoreOver (py : PyText) (fs : Formulas) (card : Value) (ctx : FormulaContext) :
    Except PyError ℤ :=
  let method := getOr card "scoring_method" (.str "points")
  if method = .str "woe" then woeScore py fs card ctx.maxScore ctx.totalWoeScore
  else if method = .str "formula" then formulaScore py fs card ctx
  else .ok (clampScore ctx.maxScore (ctx.baseScore + ctx.totalPoints))

def evaluateScorecardOver (py : PyText) (fs : Formulas) (vars : Dict) (card : Value) :
    Except PyError ScorecardResult :=
  match card.asDict with
  | none => .error .attributeError
  | some _ => do
    let baseScore ← pyIntOf py (getOr card "base_score" (.int 300))
    let maxScore ← pyIntOf py (getOr card "max_score" (.int 900))
    let bins ← iterate (card.field "bins")
    let breakdown ← bins.mapM (evaluateFactorOver A py vars)
    let ctx := formulaContext A baseScore maxScore vars breakdown
    let score ← scoreOver py fs card ctx
    let metrics ← iterate (some (Value.orElse (card.field "metrics") (.list [])))
    let metrics ← metrics.foldlM
      (evaluateMetric fs
        { ctx with score := some score, totalIv := some (totalIvOver A breakdown) }) []
    .ok ⟨score, baseScore, maxScore, getOr card "scoring_method" (.str "points"), breakdown,
      totalIvOver A breakdown, metrics⟩

end Evaluation

section Doubles
variable (py : PyText) (fs : Formulas) (vars : Dict)

end Doubles

end RuleMind
