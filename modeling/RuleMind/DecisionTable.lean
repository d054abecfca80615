/-
  Decision tables: `evaluate_decision_table` of `app/decision_tables.py`, and the
  regions its optimiser compares to find rows behind other rows.

  A table, its columns and its rows are JSON values.
-/
import RuleMind.Compare
import RuleMind.RuleTree
import RuleMind.DecisionCore

namespace RuleMind.DecisionTable

open Text (F64)
open RuleTree (iterate)

/-! ### Hit policies -/

inductive HitPolicy
  | first
  | priority
  | unique
  | collect
  deriving DecidableEq, Repr

/-- `HIT_POLICIES`. -/
def HitPolicy.ofText (s : String) : Option HitPolicy :=
  [("first", HitPolicy.first), ("priority", .priority), ("unique", .unique),
    ("collect", .collect)].lookup s

section Tables
variable (py : PyText) (search : RegexSearch)

/-- `str(table.get("hit_policy", "first")).lower()`. -/
def hitPolicyText (table : Value) : String :=
  lower (py.str ((table.field "hit_policy").getD (.str "first")))

def hitPolicy (table : Value) : HitPolicy := (HitPolicy.ofText (hitPolicyText py table)).getD .first

/-! ### Cells -/

/-- `value in (None, "")`. -/
def blank (v : Option Value) : Bool :=
  match v with
  | none | some .null => true
  | some (.str s) => s == ""
  | _ => false

def isWildcard (cell : Value) : Except PyError Bool :=
  if cell.truthy then
    match cell.asDict, cell.field "operator" with
    | none, _ => .error .attributeError
    | some _, none | some _, some .null => .ok true
    | some _, some (.list _) | some _, some (.dict _) => .error .typeError
    | some _, some (.str op) =>
      .ok (op ∈ ["", "any", "*", "-"] || (op ∉ ["exists", "!exists"] && blank (cell.field "value")))
    | some _, some _ => .ok (blank (cell.field "value"))
  else .ok true

/-- `_input_index`: a column is known by its id, the last of one id counts. -/
def addInput (index : Dict) (input : Value) : Except PyError Dict :=
  match input.asDict with
  | none => .error .attributeError
  | some kvs => match kvs.lookup "id" with
    | none | some .null => .ok index
    | some id => .ok (setKey index (py.str id) input)

def inputIndex (table : Value) : Except PyError Dict := do
  let inputs ← iterate (table.field "inputs")
  inputs.foldlM (addInput py) []

/-- `_outcome_output_id`. -/
def outcomeOutput : List Value → Except PyError (Option String)
  | [] => .ok none
  | out :: outs =>
    match out.asDict with
    | none => .error .attributeError
    | some kvs =>
      if lower (py.str ((kvs.lookup "type").getD (.str ""))) = "outcome"
      then .ok (some (py.str ((kvs.lookup "id").getD .null)))
      else outcomeOutput outs

/-- `table.get("rows", []) or []`. -/
def tableRows (table : Value) : Except PyError (List Value) :=
  iterate (some (Value.orElse (table.field "rows") (.list [])))

/-- `row.get("cells", {}) or {}`. -/
def rowCells (row : Value) : Except PyError Value :=
  match row.asDict with
  | none => .error .attributeError
  | some kvs => .ok (Value.orElse (kvs.lookup "cells") (.dict []))

/-- `cells.get(input_id)`. -/
def cellAt (cells : Value) (input : String) : Except PyError Value :=
  match cells.asDict with
  | none => .error .attributeError
  | some kvs => .ok ((kvs.lookup input).getD .null)

/-- `inp.get("field_type") or inp.get("fieldType")`. -/
def fieldTypeOf (input : Value) : Value := eitherField input "field_type" "fieldType"

/-- `str(inp.get("variable_id") or inp.get("variable") or input_id)`. -/
def variableOf (id : String) (input : Value) : String :=
  py.str (Value.orElse (input.field "variable_id") (Value.orElse (input.field "variable") (.str id)))

def cellOperator (cell : Value) : Operator :=
  Operator.ofText (py.str ((cell.field "operator").getD (.str "==")))

def rawValue (cell : Value) : Value := (cell.field "value").getD .null

def rawValue2 (cell : Value) : Value := (cell.field "value2").getD .null

/-- The threshold of a cell, as the evaluation reads it. -/
def cellValue (cell : Value) : Value := parseRuleValue py (rawValue cell)

def cellValue2 (cell : Value) : Value :=
  if blank (cell.field "value2") then .null else parseRuleValue py (rawValue2 cell)

def cellTest (cell fieldType actual : Value) : Except PyError Bool := do
  if ← isWildcard cell then
    .ok true
  else
    compare py search actual (cellOperator py cell) (cellValue py cell) (cellValue2 py cell)
      fieldType

/-! ### Evaluation -/

structure CellTrace where
  input : String
  variableId : String
  operator : String
  /-- None for a wildcard. -/
  threshold : Option Value
  value : Value
  passed : Bool

/-- One cell of `_evaluate_row`. -/
def evaluateCell (vars : Dict) (cells : Value) (input : String × Value) :
    Except PyError CellTrace := do
  let cell ← cellAt cells input.1
  let variableId := variableOf py input.1 input.2
  let actual := (vars.lookup variableId).getD .null
  let wildcard ← isWildcard cell
  let passed ← cellTest py search cell (fieldTypeOf input.2) actual
  .ok ⟨input.1, variableId,
    if wildcard then "any" else py.str ((cell.field "operator").getD (.str "==")),
    if wildcard then none else some (cellValue py cell), actual, passed⟩

structure RowTrace where
  row : Value
  cells : List CellTrace
  matched : Bool

/-- `_evaluate_row`: every cell is tested, and all have to pass. -/
def evaluateRow (inputs vars : Dict) (row : Value) : Except PyError RowTrace := do
  let cells ← rowCells row
  let trace ← inputs.mapM (evaluateCell py search vars cells)
  .ok ⟨row, trace, trace.all CellTrace.passed⟩

/-- `_priority`. -/
def rowPriority (row : Value) : Except PyError F64 :=
  match pyFloatOf py (Value.orElse (row.field "priority") (.float 0)) with
  | .ok x => .ok x
  | .error .typeError | .error .valueError => .ok (.finite 0)
  | .error e => .error e

def withPriority (row : Value) : Except PyError (Value × F64) :=
  (rowPriority py row).map fun p => (row, p)

/-- `max(rows, key=_priority)`: the first of the highest. -/
def highest : Value × F64 → List (Value × F64) → Value × F64
  | best, [] => best
  | best, r :: rs => highest (if F64.gt r.2 best.2 then r else best) rs

/-- The row that wins among the matched ones, unless all are collected. -/
def winner (policy : HitPolicy) (row : Value) (rows : List Value) : Except PyError Value :=
  if policy = .priority then do
    let best ← withPriority py row
    let rest ← rows.mapM (withPriority py)
    .ok (highest best rest).1
  else .ok row

/-- `dict(row.get("outputs", {}) or {})`; of what is no object none is made. -/
def rowOutputs (row : Value) : Except PyError Dict :=
  match row.asDict, (Value.orElse (row.field "outputs") (.dict [])).asDict with
  | none, _ => .error .attributeError
  | some _, none => .error .typeError
  | some _, some kvs => .ok kvs

/-- `r.get("outputs", {}).get(oid)`. -/
def outputAt (output : String) (row : Value) : Except PyError Value :=
  match (row.field "outputs").getD (.dict []) with
  | .dict kvs => .ok ((kvs.lookup output).getD .null)
  | _ => .error .attributeError

def rowId (row : Value) : Value := (row.field "id").getD .null

def collectColumn (matched : List Value) (out : Value) : Except PyError (String × Value) :=
  match out.asDict with
  | none => .error .attributeError
  | some kvs => do
    let id := py.str ((kvs.lookup "id").getD .null)
    let values ← matched.mapM (outputAt id)
    .ok (id, .list values)

/-- What the hit policy makes of the matched rows: the outputs, and the row that wins. -/
def resolve (table : Value) (policy : HitPolicy) (matched : List Value) :
    Except PyError (Dict × Value) :=
  match matched with
  | [] => do
    let outputs ← rowOutputs (Value.orElse (table.field "default_row") (.dict []))
    .ok (outputs, if outputs.isEmpty then .null else .str "default")
  | row :: rows =>
    if policy = .collect then do
      let outs ← iterate (table.field "outputs")
      let columns ← outs.mapM (collectColumn py matched)
      .ok (updateKeys [] columns, .list (matched.map rowId))
    else do
      let best ← winner py policy row rows
      let outputs ← rowOutputs best
      .ok (outputs, rowId best)

/-- `raw[0] if isinstance(raw, list) and raw else raw`, in lower case. -/
def resolveOutcome (outputs : Dict) (output : Option String) : Value :=
  match output with
  | none => .null
  | some id =>
    let raw := (outputs.lookup id).getD .null
    let outcome := match raw with
      | .list (v :: _) => v
      | v => v
    match outcome with
    | .str s => .str (lower s)
    | v => v

structure TableResult where
  outputs : Dict
  outcome : Value
  matchedRowIds : List Value
  winningRowId : Value
  hitPolicy : HitPolicy
  trace : List RowTrace
  ambiguous : Bool

def matchedRows (trace : List RowTrace) : List Value :=
  (trace.filter RowTrace.matched).map RowTrace.row

def evaluateDecisionTable (table : Value) (vars : Dict) : Except PyError TableResult :=
  match table.asDict with
  | none => .error .attributeError
  | some _ => do
    let inputs ← inputIndex py table
    let rows ← tableRows table
    let policy := hitPolicy py table
    let outs ← iterate (table.field "outputs")
    let outcomeOutputId ← outcomeOutput py outs
    let trace ← rows.mapM (evaluateRow py search inputs vars)
    let matched := matchedRows trace
    let (outputs, winningRowId) ← resolve py table policy matched
    .ok ⟨outputs, resolveOutcome outputs outcomeOutputId, matched.map rowId, winningRowId, policy,
      trace, policy = .unique && 1 < matched.length⟩

/-! ### Regions -/

inductive Region
  | all
  | interval (lo hi : F64) (loInc hiInc : Bool)
  | set (texts : List String)
  | unknown
  deriving DecidableEq

/-- `_num`: what is no number counts as none, an integer beyond the range raises. -/
def num (v : Value) : Except PyError (Option F64) :=
  match pyFloatOf py v with
  | .ok x => .ok (some x)
  | .error .typeError | .error .valueError => .ok none
  | .error e => .error e

/-- `min(a, b)` and `max(a, b)` of Python, on what may be no number. -/
def pyMin (a b : F64) : F64 := if F64.gt a b then b else a

def pyMax (a b : F64) : F64 := if F64.gt b a then b else a

/-- The interval of a numeric cell; none if its threshold is no number. -/
def numericRegion (op : Operator) (value value2 : Value) : Except PyError (Option Region) := do
  let v ← num py value
  if op = .between then
    let v2 ← num py value2
    match v, v2 with
    | some v, some v2 => .ok (some (.interval (pyMin v v2) (pyMax v v2) true true))
    | _, _ => .ok none
  else
    match v, op with
    | some v, .eq => .ok (some (.interval v v true true))
    | some v, .ge => .ok (some (.interval v (.infinite false) true false))
    | some v, .gt => .ok (some (.interval v (.infinite false) false false))
    | some v, .le => .ok (some (.interval (.infinite true) v false true))
    | some v, .lt => .ok (some (.interval (.infinite true) v false false))
    | _, _ => .ok none

/-- The options of an `in` cell, as the optimiser reads them. -/
def regionOptions (value : Value) : List Value :=
  match value with
  | .list vs => vs
  | v => (splitOptions (py.str v)).map .str

/-- `str(parse_rule_value(v))`. -/
def optionText (v : Value) : String := py.str (parseRuleValue py v)

def textRegion (op : Operator) (value : Value) : Region :=
  if op = .eq then .set [optionText py value]
  else if op = .isIn then .set ((regionOptions py value).map (optionText py))
  else .unknown

def numericTypes : List String := ["number", "integer", "float", ""]

def cellRegion (cell fieldType : Value) : Except PyError Region := do
  if ← isWildcard cell then
    .ok .all
  else
    let op := cellOperator py cell
    let text := textRegion py op (rawValue cell)
    if op.isOrder || op = .eq then
      let type ← typeName fieldType
      if type ∈ numericTypes then
        let region ← numericRegion py op (rawValue cell) (rawValue2 cell)
        .ok (region.getD text)
      else .ok text
    else .ok text

/-- `a < b or (a == b and c)`. -/
def ltOr (a b : F64) (c : Bool) : Bool := F64.gt b a || (!F64.ne a b && c)

/-- `_interval_covers` and `_cell_covers`. -/
def cellCovers : Region → Region → Bool
  | .all, _ => true
  | .interval alo ahi aloInc ahiInc, .interval blo bhi bloInc bhiInc =>
    ltOr alo blo (aloInc || !bloInc) && ltOr bhi ahi (ahiInc || !bhiInc)
  | .set as, .set bs => bs.all (· ∈ as)
  | _, _ => false

/-- `_row_covers`, on the cells of two rows. -/
def cellsCover (earlier later : Value) : Dict → Except PyError Bool
  | [] => .ok true
  | (id, input) :: inputs => do
    let a ← cellRegion py (← cellAt earlier id) (fieldTypeOf input)
    let b ← cellRegion py (← cellAt later id) (fieldTypeOf input)
    if a = .unknown || b = .unknown || !cellCovers a b then .ok false
    else cellsCover earlier later inputs

def rowCovers (inputs : Dict) (earlier later : Value) : Except PyError Bool := do
  let ecells ← rowCells earlier
  let lcells ← rowCells later
  cellsCover py ecells lcells inputs

def firstCover (inputs : Dict) (later : Value) : List Value → Except PyError (Option Value)
  | [] => .ok none
  | earlier :: rest => do
    if ← rowCovers py inputs earlier later then .ok (some earlier)
    else firstCover inputs later rest

/-- The rows that are reported as unreachable, each with the row that shadows it; the first
    argument holds the rows already seen. -/
def unreachableRows (inputs : Dict) :
    List Value → List Value → Except PyError (List (Value × Value))
  | _, [] => .ok []
  | before, row :: rows => do
    let cover ← firstCover py inputs row before
    let more ← unreachableRows inputs (before ++ [row]) rows
    .ok (cover.toList.map (fun earlier => (row, earlier)) ++ more)

end Tables

end RuleMind.DecisionTable
