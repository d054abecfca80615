/-
  What is stored of a rule: `normalize_rule_payload` of `app/main.py`, with the checks of a
  request, and `flatten_tree_to_nodes` of `app/logic.py`.
-/
import RuleMind.Executor
import RuleMind.Lib.Raises
import RuleMind.RuleTree

namespace RuleMind.SavedRule

/-- What ends a request early: an answer 422 with its detail, or an exception. -/
inductive Refusal
  | detail (text : String)
  | keyError (key : String)
  | raised (e : PyError)
  deriving DecidableEq

def ofPy {α : Type} (x : Except PyError α) : Except Refusal α := x.mapError .raised

/-! ### What may be saved -/

def ALLOWED_NODE_TYPES : List String := ["condition", "and", "or", "approve", "review", "reject"]

def RULE_TREE_OUTCOMES : List String := ["approve", "fail", "pass", "reject", "review"]

def ALLOWED_OPERATORS : List String := [">=", "<=", "==", ">", "<", "!="]

/-- `RuleNodeModel`. -/
structure RuleNode where
  id : String
  type : String
  variableId : Option String
  operator : Option String
  value : Option String
  label : Option String

structure RuleUpsertRequest where
  name : String
  nodes : List RuleNode
  tree : Option Dict

def textOrNull (s : Option String) : Value := (s.map Value.str).getD .null

/-- `item.model_dump()`. -/
def RuleNode.dump (n : RuleNode) : Dict :=
  [("id", .str n.id), ("type", .str n.type), ("variable", textOrNull n.variableId),
    ("operator", textOrNull n.operator), ("value", textOrNull n.value),
    ("label", textOrNull n.label)]

/-- `v in keys`, for a set of texts. -/
def isMember (keys : List String) : Value → Except Refusal Bool
  | .str s => .ok (s ∈ keys)
  | .list _ | .dict _ => .error (.raised .typeError)
  | _ => .ok false

def refuseUnless (ok : Bool) (text : String) : Except Refusal Unit :=
  if ok then .ok () else .error (.detail text)

section Save
variable (py : PyText) (variableIds : List String)

def validateCondition (node : Value) : Except Refusal Unit := do
  let name := (node.field "variable").getD .null
  let known ← if name.truthy then isMember variableIds name else .ok false
  refuseUnless known "Condition nodes require a valid variable."
  let operator := (node.field "operator").getD .null
  let allowed ← isMember ALLOWED_OPERATORS operator
  refuseUnless allowed ("Unsupported operator: " ++ py.str operator)

def validateRuleNode (n : RuleNode) : Except Refusal Unit := do
  refuseUnless (n.type ∈ ALLOWED_NODE_TYPES) ("Unsupported node type: " ++ n.type)
  if n.type = "condition" then validateCondition py variableIds (.dict n.dump) else .ok ()

def isOutcomeName (s : String) : Bool := s ∈ ["approve", "review", "reject"]

def validateRuleNodes (nodes : List RuleNode) : Except Refusal Unit := do
  refuseUnless (!nodes.isEmpty) "Rules require at least one node."
  nodes.forM (validateRuleNode py variableIds)
  refuseUnless (nodes.any fun n => isOutcomeName n.type) "Rules require an outcome node."

def validateOutcome (tree : Value) (key : String) : Except Refusal Unit := do
  let allowed ← isMember RULE_TREE_OUTCOMES ((tree.field key).getD .null)
  refuseUnless allowed ("Rule tree " ++ key ++ " must be one of: " ++
    ", ".intercalate RULE_TREE_OUTCOMES ++ ".")

/-- The items a `for` runs over; what is empty was replaced by no items. -/
def items (v : Option Value) : Except Refusal (List Value) :=
  match v.filter Value.truthy with
  | none => .ok []
  | some v => ofPy (RuleTree.iterate (some v))

/-- `validate_rule_tree`; the first argument is how many levels are still allowed. -/
def validateRuleTree : ℕ → Value → Except Refusal Unit
  | 0, _ => .error (.detail "Rules may only nest groups three levels deep.")
  | levels + 1, tree =>
    match RuleTree.kind tree with
    | .condition => validateCondition py variableIds tree
    | .not =>
      match (tree.field "child").filter fun v => v.asDict.isSome with
      | none => .error (.detail "NOT nodes require a child rule node.")
      | some child => validateRuleTree levels child
    | .group => do
      let logic := RuleTree.pyLogic py tree
      refuseUnless (logic = "AND" || logic = "OR") "Group logic must be AND or OR."
      let children ← items (tree.field "children")
      refuseUnless (!children.isEmpty) "Rule groups require one or more child nodes."
      children.forM fun child => do
        refuseUnless child.asDict.isSome "Invalid child node in rule tree."
        validateRuleTree levels child
      validateOutcome tree "onPass"
      validateOutcome tree "onFail"
    | .other => .error (.detail ("Unsupported rule tree node type: " ++
        py.str ((tree.field "type").getD .null)))

end Save

/-! ### From a tree to nodes -/

/-- The nodes so far, and the counter of their ids. -/
structure FlatNodes where
  nodes : List Dict
  counter : ℕ

def FlatNodes.nextId (s : FlatNodes) (word : String) : String × FlatNodes :=
  (word ++ "_" ++ s.counter.repr, { s with counter := s.counter + 1 })

def FlatNodes.add (s : FlatNodes) (node : Dict) : FlatNodes := { s with nodes := s.nodes ++ [node] }

/-- Between two conditions stands the logic that joins them. -/
def joinWith (s : FlatNodes) (logic : String) : FlatNodes :=
  match s.nodes.getLast? with
  | none => s
  | some last =>
    if last.lookup "type" = some (.str "condition") then
      let (id, s) := s.nextId "logic"
      s.add [("id", .str id), ("type", .str (lower logic)), ("label", .str logic)]
    else s

section Flatten
variable (py : PyText)

/-- A condition is added by its variable, operator and threshold. -/
def addCondition (s : FlatNodes) (node : Value) (logic : String) : FlatNodes :=
  let s := joinWith s logic
  let given := (node.field "id").filter Value.truthy
  let (id, s) : Value × FlatNodes := match given with
    | some id => (id, s)
    | none => ((Value.str (s.nextId "condition").1), (s.nextId "condition").2)
  s.add [("id", id), ("type", .str "condition"),
    ("variable", (node.field "variable").getD .null),
    ("operator", (node.field "operator").getD (.str "==")),
    ("value", .str (py.str ((node.field "value").getD (.str "")))), ("label", .str "Condition")]

/-- The child of a NOT: of a condition the operator is turned over. -/
def negatedChild (node : Value) : Except PyError Value :=
  match (Value.orElse (node.field "child") (.dict [])).asDict with
  | none => .error .attributeError
  | some kvs =>
    if kvs.lookup "type" = some (.str "condition") then
      .ok (.dict (setKey kvs "operator"
        (.str (if kvs.lookup "operator" = some (.str "!=") then "==" else "!="))))
    else .ok (.dict kvs)

/-- `walk`; the first argument is how many frames the interpreter still allows. -/
def flattenWalk : ℕ → FlatNodes → Value → String → Except PyError FlatNodes
  | 0, _, _, _ => .error .recursionError
  | frames + 1, s, node, inherited =>
    match node.asDict, RuleTree.kind node with
    | none, _ => .error .attributeError
    | some _, .condition => .ok (addCondition py s node inherited)
    | some _, .not => do
      let child ← negatedChild node
      flattenWalk frames s child inherited
    | some _, .group => do
      let logic := upper (py.str ((node.field "logic").getD
        (.str (if inherited = "" then "AND" else inherited))))
      let children ← RuleTree.iterate (node.field "children")
      children.foldlM (fun s child => flattenWalk frames s child logic) s
    | some _, .other => .ok s

def addOutcome (s : FlatNodes) (onPass : String) : FlatNodes :=
  if isOutcomeName onPass then
    let (id, s) := s.nextId "outcome"
    s.add [("id", .str id), ("type", .str onPass), ("label", .str onPass.capitalize)]
  else s

def flattenTreeToNodes (frames : ℕ) (tree : Value) : Except PyError (List Dict) :=
  if tree.truthy then do
    let s ← flattenWalk py frames ⟨[], 1⟩ tree (RuleTree.pyLogic py tree)
    .ok (addOutcome s (py.str ((tree.field "onPass").getD (.str "approve")))).nodes
  else .ok []

end Flatten

/-! ### What is stored of a rule -/

structure NormalizedRule where
  nodes : List Dict
  tree : Value
  ruleFormat : String
  deriving DecidableEq

/-- The depth of a tree `validate_rule_tree` accepts. -/
def RULE_LEVELS : ℕ := 4

section Store
variable (py : PyText) (variableIds : List String)

/-- The nodes that are saved beside a tree: those given, or those read off the tree, which
    needs no more frames than it has levels. -/
def nodesBeside (nodes : List RuleNode) (tree : Value) : Except Refusal (List Dict) :=
  if nodes.isEmpty then ofPy (flattenTreeToNodes py RULE_LEVELS tree)
  else .ok (nodes.map RuleNode.dump)

def normalizeRulePayload (request : RuleUpsertRequest) : Except Refusal NormalizedRule :=
  match request.tree.filter (!·.isEmpty) with
  | some kvs => do
    validateRuleTree py variableIds RULE_LEVELS (.dict kvs)
    let nodes ← nodesBeside py request.nodes (.dict kvs)
    .ok ⟨nodes, .dict kvs, "v2"⟩
  | none => do
    validateRuleNodes py variableIds request.nodes
    let nodes := request.nodes.map RuleNode.dump
    let tree ← ofPy (nodesToTree py (.list (nodes.map .dict)))
    .ok ⟨nodes, tree, "v1"⟩

def ruleRow (id name : String) (rule : NormalizedRule) : Value :=
  .dict [("id", .str id), ("name", .str name), ("nodes", .list (rule.nodes.map .dict)),
    ("tree", rule.tree), ("rule_format", .str rule.ruleFormat)]

/-- The rules of a workspace by their ids, each saved by way of the API. -/
def Stored (rules : Dict) : Prop :=
  ∀ id row, (id, row) ∈ rules → ∃ request rule,
    normalizeRulePayload py variableIds request = .ok rule ∧ row = ruleRow id request.name rule

end Store

/-! ### What is saved has no configuration -/

def Unconfigured (nodes : List Dict) : Prop := ∀ n ∈ nodes, n.lookup "config" = none

theorem Unconfigured.add {s : FlatNodes} (h : Unconfigured s.nodes) {node : Dict}
    (hn : node.lookup "config" = none) : Unconfigured (s.add node).nodes := by
  intro n hmem
  rcases List.mem_append.1 hmem with hmem | hmem
  · exact h n hmem
  · rw [List.mem_singleton.1 hmem]
    exact hn

variable {s : FlatNodes} {py : PyText}

theorem joinWith_unconfigured (h : Unconfigured s.nodes) (logic : String) :
    Unconfigured (joinWith s logic).nodes := by
  unfold joinWith
  split
  · exact h
  · split
    · exact Unconfigured.add h rfl
    · exact h

theorem addCondition_unconfigured (h : Unconfigured s.nodes)
    (node : Value) (logic : String) : Unconfigured (addCondition py s node logic).nodes := by
  have hjoin := joinWith_unconfigured h logic
  unfold addCondition
  cases (node.field "id").filter Value.truthy with
  | none => exact Unconfigured.add hjoin rfl
  | some id => exact Unconfigured.add hjoin rfl

theorem addOutcome_unconfigured (h : Unconfigured s.nodes) (onPass : String) :
    Unconfigured (addOutcome s onPass).nodes := by
  unfold addOutcome
  split
  · exact Unconfigured.add h rfl
  · exact h

theorem foldlM_keeps {ε α σ : Type} {P : σ → Prop} {f : σ → α → Except ε σ}
    (h : ∀ s a t, P s → f s a = .ok t → P t) {as : List α} {s t : σ} (hs : P s)
    (hf : as.foldlM f s = .ok t) : P t := by
  induction as generalizing s with
  | nil =>
    cases hf
    exact hs
  | cons a as ih => grind [bind_eq_ok]

theorem flattenWalk_unconfigured {frames : ℕ} {t : FlatNodes} {node : Value}
    {logic : String} (h : Unconfigured s.nodes)
    (hw : flattenWalk py frames s node logic = .ok t) : Unconfigured t.nodes := by
  induction frames generalizing s t node logic with
  | zero => cases hw
  | succ frames ih =>
    rw [flattenWalk] at hw
    split at hw
    · cases hw
    · cases hw
      exact addCondition_unconfigured h node logic
    · grind [bind_eq_ok]
    · obtain ⟨children, -, hw⟩ := bind_eq_ok.1 hw
      exact foldlM_keeps (P := fun s => Unconfigured s.nodes) (fun _ _ _ hs hw => ih hs hw) h hw
    · cases hw
      exact h

theorem flattenTreeToNodes_unconfigured {frames : ℕ} {tree : Value}
    {nodes : List Dict} (h : flattenTreeToNodes py frames tree = .ok nodes) :
    Unconfigured nodes := by
  unfold flattenTreeToNodes at h
  split at h
  · obtain ⟨s, hs, h⟩ := bind_eq_ok.1 h
    cases h
    have hwalk : Unconfigured s.nodes := by
      refine flattenWalk_unconfigured ?_ hs
      exact List.forall_mem_nil _
    exact addOutcome_unconfigured hwalk _
  · cases h
    exact List.forall_mem_nil _

theorem dump_unconfigured (nodes : List RuleNode) : Unconfigured (nodes.map RuleNode.dump) := by
  intro n hn
  obtain ⟨node, -, rfl⟩ := List.mem_map.1 hn
  rfl

theorem ofPy_eq_ok {α : Type} {x : Except PyError α} {a : α} : ofPy x = .ok a ↔ x = .ok a :=
  mapError_eq_ok

theorem normalizeRulePayload_unconfigured {variableIds : List String}
    {request : RuleUpsertRequest} {rule : NormalizedRule}
    (h : normalizeRulePayload py variableIds request = .ok rule) : Unconfigured rule.nodes := by
  unfold normalizeRulePayload at h
  grind -ring -linarith [bind_eq_ok, nodesBeside, flattenTreeToNodes_unconfigured, ofPy_eq_ok, dump_unconfigured]

/-! ### A tree that is accepted has nodes -/

section Accepted
variable {py : PyText} {variableIds : List String}

theorem forM_ok {ε α : Type} {f : α → Except ε Unit} {as : List α} (h : as.forM f = .ok ()) :
    ∀ a ∈ as, f a = .ok () := by
  induction as with
  | nil => exact List.forall_mem_nil _
  | cons a as ih =>
    obtain ⟨⟨⟩, ha, h⟩ := bind_eq_ok.1 (show (f a >>= fun _ => as.forM f) = .ok () from h)
    exact List.forall_mem_cons.2 ⟨ha, ih h⟩

theorem refuseUnless_ok {b : Bool} {text : String} (h : refuseUnless b text = .ok ()) :
    b = true := by
  cases b with
  | false => cases h
  | true => rfl

variable {levels : ℕ} {tree : Value} {kvs : Dict}

theorem validateRuleTree_group (hkind : RuleTree.kind tree = .group)
    (h : validateRuleTree py variableIds (levels + 1) tree = .ok ()) :
    ∃ children, RuleTree.iterate (tree.field "children") = .ok children ∧
      ∀ child ∈ children, child.asDict.isSome = true ∧
        validateRuleTree py variableIds levels child = .ok () := by
  rw [validateRuleTree, hkind] at h
  obtain ⟨⟨⟩, -, h⟩ := bind_eq_ok.1 h
  obtain ⟨children, hchildren, h⟩ := bind_eq_ok.1 h
  obtain ⟨⟨⟩, hsome, h⟩ := bind_eq_ok.1 h
  obtain ⟨⟨⟩, hall, -⟩ := bind_eq_ok.1 h
  refine ⟨children, ?_, fun child hchild => ?_⟩
  · unfold items at hchildren
    split at hchildren
    · cases hchildren
      cases refuseUnless_ok hsome
    · rename_i v hv
      rw [(Option.filter_eq_some_iff.1 hv).1]
      exact ofPy_eq_ok.1 hchildren
  grind -ring -linarith [bind_eq_ok, forM_ok, refuseUnless_ok]

theorem validateRuleTree_not (hkind : RuleTree.kind tree = .not)
    (h : validateRuleTree py variableIds (levels + 1) tree = .ok ()) :
    ∃ kvs, tree.field "child" = some (.dict kvs) ∧
      validateRuleTree py variableIds levels (.dict kvs) = .ok () := by
  rw [validateRuleTree, hkind] at h
  dsimp only at h
  split at h
  · cases h
  · rename_i child hchild
    obtain ⟨hfield, hdict⟩ := Option.filter_eq_some_iff.1 hchild
    cases child with
    | dict kvs => exact ⟨kvs, hfield, h⟩
    | _ => cases hdict

theorem negatedChild_dict {node : Value}
    (h : Value.orElse (node.field "child") (.dict []) = .dict kvs) :
    negatedChild node = .ok (if kvs.lookup "type" = some (.str "condition") then
      .dict (setKey kvs "operator"
        (.str (if kvs.lookup "operator" = some (.str "!=") then "==" else "!=")))
      else .dict kvs) := by grind [negatedChild, Value.asDict]

theorem condition_setKey {v : Value} (h : kvs.lookup "type" = some (.str "condition")) :
    RuleTree.kind (.dict (setKey kvs "operator" v)) = .condition := by
  have hl : (setKey kvs "operator" v).lookup "type" = some (.str "condition") := by
    rw [lookup_setKey, h]
    rfl
  unfold RuleTree.kind RuleTree.nodeType
  rw [Value.field, hl]
  rfl

theorem flattenWalk_condition {frames : ℕ} {s : FlatNodes} {logic : String}
    (h : RuleTree.kind (.dict kvs) = .condition) :
    flattenWalk py (frames + 1) s (.dict kvs) logic = .ok (addCondition py s (.dict kvs) logic) := by
  rw [flattenWalk, h]
  rfl

end Accepted

end RuleMind.SavedRule
