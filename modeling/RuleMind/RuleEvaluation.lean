/-
  `evaluate_rule_tree` of `app/logic.py` on a map of variables: the walk of the tree,
  the comparison of each condition, and the result as callers read it.
-/
import RuleMind.Compare
import RuleMind.DecisionCore
import RuleMind.RuleTree

namespace RuleMind.RuleTree

def conditionVariable (py : PyText) (node : Value) : String :=
  py.str ((node.field "variable").getD (.str ""))

/-- What a condition compares with: its threshold, the second one, and the type. -/
def conditionExpected (py : PyText) (node : Value) : Value :=
  parseRuleValue py ((node.field "value").getD .null)

def conditionExpected2 (py : PyText) (node : Value) : Value :=
  parseRuleValue py ((node.field "value2").getD .null)

def conditionOperator (py : PyText) (node : Value) : Operator :=
  Operator.ofText (py.str ((node.field "operator").getD (.str "==")))

section Evaluation
variable (py : PyText) (search : RegexSearch)

/-- The leaf of `evaluate_node`. -/
def conditionPasses (vars : Dict) (node : Value) : Except PyError Bool :=
  compare py search ((vars.lookup (conditionVariable py node)).getD .null)
    (conditionOperator py node) (conditionExpected py node) (conditionExpected2 py node)
    (eitherField node "fieldType" "field_type")

/-- `evaluate_node`, with comparisons that may raise. -/
def evaluateNodeOn (leaf : Value → Except PyError Bool) :
    ℕ → Value → String → Except PyError (Bool × Trace)
  | 0, _, _ => .error .depthExceeded
  | f + 1, node, inherited =>
    match node.asDict with
    | none => .error .attributeError
    | some _ =>
      match kind node with
      | .condition => do
        let passed ← leaf node
        .ok (passed, ⟨[⟨node, inherited, passed⟩], []⟩)
      | .not => do
        let child := Value.orElse (node.field "child") (.dict [])
        let (b, t) ← evaluateNodeOn leaf f child "NOT"
        let result := !b
        .ok (result, t.append ⟨[], [⟨(node.field "id").getD (.str "not"), "NOT", result, 1⟩]⟩)
      | .group => do
        let logic := pyLogic py node
        let children ← iterate (node.field "children")
        let (bs, t) ← evaluateAll (fun c => evaluateNodeOn leaf f c logic) children
        let passed := if logic = "AND" then bs.all id else bs.any id
        .ok (passed,
          t.append ⟨[], [⟨(node.field "id").getD (.str "group"), logic, passed, bs.length⟩]⟩)
      | .other => .ok (false, ⟨[], []⟩)

/-- An entry of `conditions`, with the catalog of the variables. -/
def conditionEntry (catalog vars : Dict) (c : Condition) : Value :=
  let id := conditionVariable py c.node
  let described := catalog.lookup id
  .dict [("variable_id", .str id),
    ("variable_name", (described.bind (Value.field "name")).getD (.str id)),
    ("source_id", (described.bind (Value.field "source_id")).getD .null),
    ("operator", (c.node.field "operator").getD (.str "==")),
    ("threshold", conditionExpected py c.node), ("value", (vars.lookup id).getD .null),
    ("passed", .bool c.passed), ("group", .str c.group)]

def groupEntry (g : GroupResult) : Value :=
  .dict [("id", g.id), ("logic", .str g.logic), ("passed", .bool g.passed),
    ("childCount", .int g.childCount)]

def decidedOutcome (tree : Value) (passed : Bool) : String :=
  if passed then py.str ((tree.field "onPass").getD (.str "approve"))
  else py.str ((tree.field "onFail").getD (.str "reject"))

/-- `evaluate_rule_tree`. -/
def evaluateTree (catalog vars : Dict) (tree : Value) : Except PyError Value :=
  match tree.asDict with
  | none => .error .attributeError
  | some _ => do
    let (overall, t) ← evaluateNodeOn py (conditionPasses py search vars)
      (MAX_RULE_TREE_DEPTH + 1) tree (pyLogic py tree)
    .ok (.dict [("conditions", .list (t.conditions.map (conditionEntry py catalog vars))),
      ("groupResults", .list (t.groups.map groupEntry)), ("passed", .bool overall),
      ("outcome", .str (decidedOutcome py tree overall)), ("logic", .str (pyLogic py tree))])

/-- `evaluate_rule_definition` on a map of variables. -/
def evaluateDefinition (catalog vars : Dict) (rule : Value) : Except PyError Value := do
  let tree ← definitionTree py rule
  evaluateTree py search catalog vars tree

end Evaluation

section Laws
variable {py : PyText} {search : RegexSearch}

theorem evaluateTree_ok {catalog vars : Dict} {tree result : Value}
    (h : evaluateTree py search catalog vars tree = .ok result) :
    ∃ overall t, evaluateNodeOn py (conditionPasses py search vars) (MAX_RULE_TREE_DEPTH + 1) tree
        (pyLogic py tree) = .ok (overall, t) ∧
      result.field "passed" = some (.bool overall) ∧
      result.field "outcome" = some (.str (decidedOutcome py tree overall)) := by
  unfold evaluateTree at h
  split at h
  · cases h
  · obtain ⟨⟨overall, t⟩, hnode, hres⟩ := bind_eq_ok.1 h
    cases hres
    exact ⟨overall, t, hnode, rfl, rfl⟩

end Laws

end RuleMind.RuleTree
