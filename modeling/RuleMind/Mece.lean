/-
  `app/mece.py`: are the rules of a policy mutually exclusive and collectively
  exhaustive?

  A float that is a number is an end of an interval (`Bound`).  Descriptions are left out of the
  diagnostics.
-/
import RuleMind.Compare
import RuleMind.Lib.Region
import Mathlib.Data.List.Sort

namespace RuleMind.Mece

open Text (F64)

/-- A float that is a number, the infinities included. -/
abbrev Bound := WithBot (WithTop ℚ)

def BRANCH_CAP : ℕ := 200

/-! ### Constraints -/

inductive FieldType
  | number
  | date
  | boolean
  | other
  deriving DecidableEq, Repr

structure FieldConstraint where
  fieldName : String
  fieldType : FieldType
  /-- Empty where the source has none. -/
  intervals : List (Interval Bound)
  valueSet : Option (ValueSet String)
  excludedPoints : List Bound
  isOpaque : Bool
  deriving DecidableEq

abbrev Branch := List FieldConstraint

def emptyInterval : Interval Bound := ⟨((0 : ℚ) : WithTop ℚ), ((0 : ℚ) : WithTop ℚ), false, false⟩

/-- The interval of an operator, its thresholds being numbers. -/
def operatorInterval (op : Operator) (v : Bound) (v2 : Option Bound) : Interval Bound :=
  match op with
  | .eq => ⟨v, v, true, true⟩
  | .gt => ⟨v, ⊤, false, false⟩
  | .ge => ⟨v, ⊤, true, false⟩
  | .lt => ⟨⊥, v, false, false⟩
  | .le => ⟨⊥, v, false, true⟩
  | .between =>
    -- `value2 or value`: an upper bound of zero counts as none
    let w := match v2 with
      | some w => if w = ((0 : ℚ) : WithTop ℚ) then v else w
      | none => v
    ⟨min v w, max v w, true, true⟩
  | _ => .full

def operatorToInterval (op : Operator) (value : F64) (value2 : Option F64) : Interval Bound :=
  match F64.order value, value2.map F64.order with
  | none, _ | _, some none => emptyInterval
  | some v, none => operatorInterval op v none
  | some v, some (some v2) => operatorInterval op v (some v2)

section Extraction
variable (py : PyText)

def safeFloat (v : Value) : Except PyError F64 :=
  match pyFloatOf py v with
  | .error .typeError | .error .valueError => .ok .nan
  | x => x

/-- `config.get("operator", "==")`. -/
def operatorOf (config : Dict) : Operator :=
  match config.lookup "operator" with
  | none => .eq
  | some (.str s) => Operator.ofText s
  | some _ => .other

def isNumber : Value → Bool
  | .int _ | .float _ | .inf _ => true
  | _ => false

/-- The field type: the explicit one, or one detected from the threshold. -/
def fieldTypeOf (config : Dict) : FieldType :=
  match (config.lookup "fieldType").filter Value.truthy with
  | some (.str s) =>
    if s = "number" then .number else if s = "date" then .date
    else if s = "boolean" then .boolean else .other
  | some _ => .other
  | none =>
    match (config.lookup "value").getD .null with
    | .bool _ => .boolean
    | .int _ | .float _ | .inf _ => .number
    | .list (v :: _) =>
      if v.isBool || isNumber v || (operatorOf config).isOrder then .number else .other
    | _ => if (operatorOf config).isOrder then .number else .other

/-- `config.get("value2")` as a float, unless it is none. -/
def upperOf (config : Dict) : Except PyError (Option F64) :=
  match config.lookup "value2" with
  | none | some .null => .ok none
  | some v => (safeFloat py v).map some

def numericConstraint (name : String) (type : FieldType) (iv : Interval Bound)
    (excluded : List Bound) : FieldConstraint := ⟨name, type, [iv], none, excluded, false⟩

def setConstraint (name : String) (type : FieldType) (s : ValueSet String) : FieldConstraint :=
  ⟨name, type, [], some s, [], false⟩

def numberConstraint (name : String) (type : FieldType) (config : Dict) :
    Except PyError FieldConstraint := do
  let value ← safeFloat py ((config.lookup "value").getD (.int 0))
  let value2 ← upperOf py config
  if operatorOf config = .ne then
    .ok (numericConstraint name type .full (F64.order value).toList)
  else .ok (numericConstraint name type (operatorToInterval (operatorOf config) value value2) [])

/-- The constraint of a date; what is no number cannot be told. -/
def dateConstraint (name : String) (config : Dict) : Except PyError FieldConstraint := do
  let value ← safeFloat py ((config.lookup "value").getD (.int 0))
  let value2 ← upperOf py config
  if operatorOf config = .ne then
    .ok (numericConstraint name .date .full (F64.order value).toList)
  else if value = .nan then .ok { numericConstraint name .date .full [] with isOpaque := true }
  else .ok (numericConstraint name .date (operatorToInterval (operatorOf config) value value2) [])

/-- `str(bool_val).lower()`. -/
def boolName (b : Bool) : String := if b then "true" else "false"

/-- `str(config.get("value", "true")).lower() == "true"`. -/
def boolThreshold (config : Dict) : Bool :=
  lower (py.str ((config.lookup "value").getD (.str "true"))) == "true"

def booleanConstraint (name : String) (config : Dict) : FieldConstraint :=
  let values := match operatorOf config with
    | .eq => [boolName (boolThreshold py config)]
    | .ne => [boolName (!boolThreshold py config)]
    | .notExists => []
    | _ => ["true", "false"]
  setConstraint name .boolean ⟨some values, []⟩

/-- The options of `in` and `not_in`, stripped. -/
def optionSet (config : Dict) : List String :=
  match (config.lookup "value").getD (.str "") with
  | .list vs => ((vs.map fun v => pyStrip (py.str v).toList).filter (· ≠ [])).map String.ofList
  | v => splitOptions (py.str v)

/-- The constraint of a text; of other operators nothing is known. -/
def textConstraint (name : String) (config : Dict) : FieldConstraint :=
  let unknown : FieldConstraint := { setConstraint name .other ⟨none, []⟩ with isOpaque := true }
  let value := (config.lookup "value").getD .null
  match operatorOf config with
  | .isIn => setConstraint name .other ⟨some (optionSet py config), []⟩
  | .notIn => setConstraint name .other ⟨none, optionSet py config⟩
  | .eq => if value.isNull then unknown else setConstraint name .other ⟨some [py.str value], []⟩
  | .ne => if value.isNull then unknown else setConstraint name .other ⟨none, [py.str value]⟩
  | .exists => setConstraint name .other ⟨none, []⟩
  | .notExists => setConstraint name .other ⟨some [], []⟩
  | _ => unknown

/-- `extract_condition_constraint`; the name of a field is a text. -/
def extractConstraint (score : Bool) (config : Dict) : Except PyError (Option FieldConstraint) :=
  match (config.lookup "field").filter Value.truthy with
  | none => .ok none
  | some (.str name) =>
    let type := fieldTypeOf config
    if type = .number || score then (numberConstraint py name type config).map some
    else if type = .date then (dateConstraint py name config).map some
    else if type = .boolean then .ok (some (booleanConstraint py name config))
    else .ok (some (textConstraint py name config))
  | some _ => .error .typeError

end Extraction

/-! ### Rules -/

inductive NodeType
  | condition | score | and | or | group | not | trigger
  | outcome
  | other
  deriving DecidableEq, Repr

structure Node where
  id : String
  type : NodeType
  config : Value

structure Definition where
  /-- The shorthand, if it is not empty. -/
  conditions : List Value
  nodes : List Node
  connections : List (String × String)

/-- `node.get("config") or {}`. -/
def Node.configOf (node : Node) : Except PyError Dict :=
  if node.config.truthy then
    match node.config with
    | .dict kvs => .ok kvs
    | _ => .error .attributeError
  else .ok []

namespace Definition
variable (d : Definition)

/-- `node_map.get(nid)`: of nodes of one id the last counts. -/
def node (nid : String) : Option Node := d.nodes.reverse.find? (·.id = nid)

def isOutcome (nid : String) : Bool := (d.node nid).any (·.type = .outcome)

def children (nid : String) : List String :=
  ((d.connections.filter (·.1 = nid)).map Prod.snd).filter (!d.isOutcome ·)

def roots : List String :=
  (d.nodes.filter fun n => n.id ∉ d.connections.map Prod.snd && n.type ≠ .outcome).map Node.id

end Definition

/-- How a group combines its children: as AND, as OR, or not at all. -/
def groupType (config : Dict) : NodeType :=
  match config.lookup "groupOp" with
  | none => .and
  | some (.str s) => if s = "AND" then .and else if s = "OR" then .or else .other
  | some _ => .other

def Node.role (node : Node) : Except PyError NodeType :=
  if node.type = .group then node.configOf.map groupType else .ok node.type

/-- `config.get(key)`. -/
def entry (config : Dict) (key : String) : Value := (config.lookup key).getD .null

/-- What is passed on of a condition of the shorthand. -/
def shorthandConfig (kvs : Dict) : Dict :=
  [("field", entry kvs "field"), ("operator", entry kvs "operator"), ("value", entry kvs "value")]

/-! ### Branches -/

/-- Every branch continued by every other, as far as the cap allows. -/
def crossCapped (result parts : List Branch) : List Branch :=
  (result.flatMap fun branch => parts.map (branch ++ ·)).take BRANCH_CAP

/-- `_expand_and`, on the branches of the children. -/
def expandAnd (parts : List (List Branch)) : List Branch := parts.foldl crossCapped [[]]

/-- `_expand_or`: the children are walked until the cap is reached. -/
def expandOr (walk : String → Except PyError (List Branch)) :
    List Branch → List String → Except PyError (List Branch)
  | branches, [] => .ok (branches.take BRANCH_CAP)
  | branches, child :: children =>
    if BRANCH_CAP ≤ branches.length then .ok (branches.take BRANCH_CAP)
    else do
      let more ← walk child
      expandOr walk (branches ++ more) children

def invertConstraint (c : FieldConstraint) : List Branch :=
  if c.isOpaque then [[c]]
  else match c.intervals, c.valueSet with
    | iv :: _, _ =>
      if c.excludedPoints = [] then
        iv.invert.map fun iv => [numericConstraint c.fieldName c.fieldType iv []]
      else
        c.excludedPoints.map fun p => [numericConstraint c.fieldName c.fieldType ⟨p, p, true, true⟩ []]
    | [], some s => [[setConstraint c.fieldName c.fieldType s.invert]]
    | [], none => []

/-- A list of branches, or the one without constraints. -/
def orUnconstrained (branches : List Branch) : List Branch :=
  if branches.isEmpty then [[]] else branches

/-- What one branch contributes to its negation; in a branch of several constraints each is
    inverted by itself, and what cannot be inverted then counts as unconstrained. -/
def invertBranch (branch : Branch) : List Branch :=
  match branch with
  | [c] => invertConstraint c
  | _ => branch.flatMap fun c => orUnconstrained (invertConstraint c)

def invertBranches (branches : List Branch) : List Branch :=
  orUnconstrained (branches.flatMap invertBranch)

section Walk
variable (py : PyText) (d : Definition)

/-- `walk`: the branches of a node, those it is already below apart.  A node is below itself
    at most once, so that there are no more levels than nodes. -/
def walk : ℕ → List String → String → Except PyError (List Branch)
  | 0, _, _ => .ok [[]]
  | f + 1, visiting, nid =>
    if nid ∈ visiting then .ok [[]]
    else match d.node nid with
      | none => .ok [[]]
      | some node =>
        let below := walk f (nid :: visiting)
        let children := d.children nid
        match node.role with
        | .error e => .error e
        | .ok .condition | .ok .score => do
          let config ← node.configOf
          match ← extractConstraint py (node.type = .score) config with
          | none => .ok [[]]
          | some c => do
            let parts ← children.mapM below
            .ok ((orUnconstrained parts.flatten).map (c :: ·))
        | .ok .and => do
          let parts ← children.mapM below
          .ok (expandAnd parts)
        | .ok .or => (expandOr below [] children).map orUnconstrained
        | .ok .not =>
          match children with
          | [] => .ok [[]]
          | child :: _ => (below child).map invertBranches
        | .ok .trigger => do
          let parts ← children.mapM below
          .ok (orUnconstrained parts.flatten)
        | .ok _ => .ok [[]]

/-- The constraint of a condition of the shorthand. -/
def shorthandConstraint (cond : Value) : Except PyError (Option FieldConstraint) :=
  match cond.asDict with
  | none => .error .attributeError
  | some kvs => extractConstraint py false (shorthandConfig kvs)

/-- `extract_rule_constraint_space`. -/
def constraintSpace : Except PyError (List Branch) :=
  if d.conditions.isEmpty then do
    let parts ← d.roots.mapM (walk py d (d.nodes.length + 1) [])
    .ok ((orUnconstrained parts.flatten).take BRANCH_CAP)
  else do
    let constraints ← d.conditions.mapM (shorthandConstraint py)
    .ok [constraints.reduceOption]

end Walk

/-! ### Overlap -/

/-- The constraint of a field, met with one more on it. -/
def FieldConstraint.meet (e c : FieldConstraint) : FieldConstraint :=
  { e with
    isOpaque := e.isOpaque || c.isOpaque
    intervals :=
      if e.intervals.isEmpty || c.intervals.isEmpty then e.intervals
      else
        let merged := e.intervals.flatMap fun a => c.intervals.filterMap a.inter
        if merged.isEmpty then [emptyInterval] else merged
    excludedPoints := e.excludedPoints ++ c.excludedPoints
    valueSet := match e.valueSet, c.valueSet with
      | some s, some t => some (s.inter t)
      | s, _ => s }

/-- `by_field`, with one more constraint. -/
def addConstraint : Branch → FieldConstraint → Branch
  | [], c => [c]
  | e :: es, c => if e.fieldName = c.fieldName then e.meet c :: es else e :: addConstraint es c

/-- `normalize_branch`: one constraint a field. -/
def normalizeBranch (branch : Branch) : Branch := branch.foldl addConstraint []

/-- The meet of two intervals is a point one of the constraints excludes. -/
def excludedMeet (a b : FieldConstraint) (iv : Interval Bound) : Bool :=
  iv.lower = iv.upper && iv.lowerInc && iv.upperInc &&
    (iv.lower ∈ a.excludedPoints || iv.lower ∈ b.excludedPoints)

/-- `constraints_overlap_for_field`. -/
def constraintsOverlap (a b : FieldConstraint) : Bool :=
  if a.isOpaque || b.isOpaque then true
  else if !a.intervals.isEmpty && !b.intervals.isEmpty then
    a.intervals.any fun ia => b.intervals.any fun ib =>
      ia.overlap ib && (ia.inter ib).any fun iv => !excludedMeet a b iv
  else match a.valueSet, b.valueSet with
    | some s, some t => s.overlap t
    | _, _ => true

/-- The constraints two branches have on fields they share. -/
def sharedFields (fa fb : Branch) : List (FieldConstraint × FieldConstraint) :=
  fa.filterMap fun a => (fb.find? (·.fieldName = a.fieldName)).map (a, ·)

def branchesOverlap (ba bb : Branch) : Bool :=
  (sharedFields (normalizeBranch ba) (normalizeBranch bb)).all fun ab =>
    constraintsOverlap ab.1 ab.2

/-! ### Diagnostics -/

inductive DiagnosticType
  | overlap
  | gap
  deriving DecidableEq, Repr

inductive Severity
  | error
  | warning
  | info
  deriving DecidableEq, Repr

structure Diagnostic where
  type : DiagnosticType
  severity : Severity
  fields : List String
  involvedRules : List String
  deriving DecidableEq, Repr

structure RuleSpace where
  id : String
  branches : List Branch
  deriving DecidableEq

/-- There is something to say on how the constraints of a shared field overlap. -/
def described (ab : FieldConstraint × FieldConstraint) : Bool :=
  ab.1.isOpaque || ab.2.isOpaque || (!ab.1.intervals.isEmpty && !ab.2.intervals.isEmpty) ||
    (ab.1.valueSet.isSome && ab.2.valueSet.isSome)

/-- What is said of two branches that overlap; nothing if there is nothing to describe. -/
def overlapDiagnostic (ra rb : RuleSpace) (ba bb : Branch) : Option Diagnostic :=
  let shared := sharedFields (normalizeBranch ba) (normalizeBranch bb)
  let overlapping := shared.filter fun ab => constraintsOverlap ab.1 ab.2
  if shared.isEmpty then some ⟨.overlap, .error, [], [ra.id, rb.id]⟩
  else if overlapping.any described then
    some ⟨.overlap, .error, overlapping.map (·.1.fieldName), [ra.id, rb.id]⟩
  else none

/-- The first pair of branches of two rules that overlap. -/
def pairDiagnostic (ra rb : RuleSpace) : Option Diagnostic :=
  ((ra.branches.product rb.branches).find? fun b => branchesOverlap b.1 b.2).bind fun b =>
    overlapDiagnostic ra rb b.1 b.2

def pairDiagnostics : List RuleSpace → List Diagnostic
  | [] => []
  | r :: rs => rs.filterMap (pairDiagnostic r) ++ pairDiagnostics rs

def gapOf (name : String) : Diagnostic := ⟨.gap, .error, [name], []⟩

def startsBefore (a b : Interval Bound) : Bool :=
  a.lower < b.lower || (a.lower = b.lower && (a.lowerInc || !b.lowerInc))

/-- The intervals in order: what they cover so far reaches up to an end. -/
def scanGaps (name : String) : Bound → Bool → List (Interval Bound) → List Diagnostic
  | upper, _, [] => if upper < ⊤ then [gapOf name] else []
  | upper, inc, iv :: ivs =>
    (if upper < iv.lower || (upper = iv.lower && !inc && !iv.lowerInc) then [gapOf name] else []) ++
      (if upper < iv.upper || (iv.upper = upper && iv.upperInc && !inc) then
        scanGaps name iv.upper iv.upperInc ivs
      else scanGaps name upper inc ivs)

def checkNumericExhaustiveness (name : String) (intervals : List (Interval Bound)) :
    List Diagnostic :=
  match (intervals.filter (!·.isEmpty)).insertionSort (startsBefore · ·) with
  | [] => [gapOf name]
  | iv :: ivs =>
    (if ⊥ < iv.lower then [gapOf name] else []) ++ scanGaps name iv.upper iv.upperInc ivs

def checkBooleanExhaustiveness (name : String) (values : List String) : List Diagnostic :=
  (if "true" ∈ values then [] else [gapOf name]) ++ (if "false" ∈ values then [] else [gapOf name])

/-- The values a boolean constraint counts for; an empty set counts for both. -/
def booleanValues (s : ValueSet String) : List String :=
  match s.included with
  | some (v :: vs) => v :: vs
  | _ => ["true", "false"]

/-- The fields some constraint with the property is on. -/
def fieldsWith (p : FieldConstraint → Bool) (cs : Branch) : List String :=
  ((cs.filter p).map (·.fieldName)).eraseDups

def collect {α : Type} (f : FieldConstraint → List α) (cs : Branch) (name : String) : List α :=
  (cs.filter (·.fieldName = name)).flatMap f

def isNumeric (c : FieldConstraint) : Bool := !c.intervals.isEmpty

def isBoolean (c : FieldConstraint) : Bool := c.valueSet.isSome && c.fieldType = .boolean

def isCategorical (c : FieldConstraint) : Bool := c.valueSet.isSome && c.fieldType ≠ .boolean

/-- The gaps of a categorical field: only certain values are covered. -/
def categoricalGap (cs : Branch) (name : String) : List Diagnostic :=
  let sets := collect (fun c => if isCategorical c then c.valueSet.toList else []) cs name
  if sets.all (·.included.isSome) && sets.any (fun s => s.included.any (!·.isEmpty)) then
    [⟨.gap, .warning, [name], []⟩]
  else []

/-- The coverage of the fields, from the constraints of all branches. -/
def coverageDiagnostics (cs : Branch) : List Diagnostic :=
  (fieldsWith isNumeric cs).flatMap (fun name =>
    checkNumericExhaustiveness name (collect (·.intervals) cs name)) ++
  (fieldsWith isBoolean cs).flatMap (fun name =>
    checkBooleanExhaustiveness name
      (collect (fun c => if isBoolean c then c.valueSet.toList.flatMap booleanValues else [])
        cs name)) ++
  (fieldsWith isCategorical cs).flatMap (categoricalGap cs)

/-! ### The report -/

structure Rule where
  id : String
  /-- `rule.get("definition")`, if it is not empty. -/
  definition : Option Definition
  /-- The shorthand beside the definition. -/
  conditions : List Value

structure Report where
  diagnostics : List Diagnostic
  analyzedFields : List String
  ruleCount : ℕ
  hasOpaqueConstraints : Bool
  isMutuallyExclusive : Bool
  isCollectivelyExhaustive : Bool

/-- The definition of a rule, or the shorthand in its place. -/
def Rule.defn (r : Rule) : Definition := r.definition.getD ⟨r.conditions, [], []⟩

def ruleSpace (py : PyText) (r : Rule) : Except PyError RuleSpace :=
  (constraintSpace py r.defn).map (⟨r.id, ·⟩)

def noErrors (type : DiagnosticType) (ds : List Diagnostic) : Bool :=
  ds.all fun d => !(d.type = type && d.severity = .error)

def pairReport (spaces : List RuleSpace) : Report :=
  let cs := spaces.flatMap fun space => space.branches.flatMap normalizeBranch
  let diagnostics := pairDiagnostics spaces ++ coverageDiagnostics cs
  { diagnostics
    analyzedFields := (fieldsWith (fun _ => true) cs).insertionSort (· ≤ ·)
    ruleCount := spaces.length
    hasOpaqueConstraints := cs.any (·.isOpaque)
    isMutuallyExclusive := noErrors .overlap diagnostics
    isCollectivelyExhaustive := noErrors .gap diagnostics }

def analyzeMece (py : PyText) (rules : List Rule) : Except PyError Report :=
  match rules with
  | [] => .ok ⟨[⟨.gap, .error, [], []⟩], [], 0, false, true, false⟩
  | [r] => do
    -- a single rule is read by its definition only
    let branches ← constraintSpace py (r.definition.getD ⟨[], [], []⟩)
    let names := fieldsWith (fun _ => true) branches.flatten
    .ok ⟨[⟨.gap, .info, names, [r.id]⟩], names, 1, branches.flatten.any (·.isOpaque), true, false⟩
  | rules => (rules.mapM (ruleSpace py)).map pairReport

end RuleMind.Mece
