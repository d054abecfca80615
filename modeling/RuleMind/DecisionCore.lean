/-
  The pure decision core: outcomes and their precedence, the steps of a policy, and
  the step loop of `decide` in `app/core/engine.py`.

  A policy's steps, its rules, scorecards and tables are JSON values.  The three
  evaluators `decide` calls are parameters (`Evaluators`): each is a function of
  the definition it is given, the variables being those of one decision.
-/
import RuleMind.Value

namespace RuleMind

/-! ### Outcomes -/

/-- `_OUTCOME_PRECEDENCE`; an outcome of another name has none. -/
def rank (o : String) : ℕ :=
  if o = "reject" then 4
  else if o = "review" then 3
  else if o = "approve" then 2
  else if o = "pass" then 1
  else 0

def mergeOutcome (current candidate : String) : String :=
  if rank current < rank candidate then candidate
  else if rank candidate < rank current then current
  else if current = "pass" ∧ candidate = "approve" then candidate
  else current

/-- `_merge_outcome` of Python, where the candidate may be any value. -/
def pyMergeOutcome (py : PyText) (current : String) (candidate : Value) : String :=
  let current := if current = "" then "pending" else current
  mergeOutcome current (if candidate.truthy then py.str candidate else current)

def settle (o : String) : String := if o = "pending" then "review" else o

/-- An outcome a run can hold: it has a rank, or is the initial one. -/
def Named (o : String) : Prop := o = "pending" ∨ 0 < rank o

theorem rank_le_four (o : String) : rank o ≤ 4 := by
  unfold rank
  split_ifs <;> omega

theorem Named.ne_empty {o : String} (h : Named o) : o ≠ "" := by
  rintro rfl
  rcases h with h | h
  · exact absurd h (by decide)
  · exact absurd h (by decide)

variable {a b : String}

theorem named_inj (ha : Named a) (hb : Named b) (h : rank a = rank b) : a = b := by
  have hp : rank "pending" = 0 := by decide
  rcases ha with rfl | ha
  · rcases hb with rfl | hb
    · rfl
    · omega
  · rcases hb with rfl | hb
    · omega
    grind [rank]

theorem mergeOutcome_eq (current candidate : String) :
    mergeOutcome current candidate =
      if rank current < rank candidate then candidate else current := by
  unfold mergeOutcome
  split_ifs with h1 h2 h3
  · rfl
  · rfl
  · obtain ⟨rfl, rfl⟩ := h3
    exact absurd (by decide) h1
  · rfl

theorem rank_merge (a b : String) : rank (mergeOutcome a b) = max (rank a) (rank b) := by
  rw [mergeOutcome_eq]
  split_ifs with h <;> omega

theorem named_merge (h : Named a) (b : String) : Named (mergeOutcome a b) := by
  rw [mergeOutcome_eq]
  split_ifs with hr
  · exact Or.inr (by omega)
  · exact h

theorem pyMergeOutcome_eq (py : PyText) (h : Named a) (v : Value) :
    pyMergeOutcome py a v = mergeOutcome a (if v.truthy then py.str v else a) := by
  simp only [pyMergeOutcome, h.ne_empty, if_false]

def mergeAll (votes : List String) (a : String) : String := votes.foldl mergeOutcome a

def strongest (votes : List String) : ℕ := (votes.map rank).foldr max 0

theorem mergeAll_named {votes : List String} {a : String} (h : Named a) :
    Named (mergeAll votes a) := by
  induction votes generalizing a with
  | nil => exact h
  | cons v votes ih => exact ih (named_merge h v)

theorem rank_mergeAll (votes : List String) (a : String) :
    rank (mergeAll votes a) = max (rank a) (strongest votes) := by
  induction votes generalizing a with
  | nil => simp [mergeAll, strongest]
  | cons v votes ih =>
    show rank (mergeAll votes (mergeOutcome a v)) = _
    rw [ih, rank_merge]
    simp only [strongest, List.map_cons, List.foldr_cons]
    omega

theorem settle_eq_iff (ha : Named a) (hb : Named b) :
    settle a = settle b ↔
      rank a = rank b ∨ (rank a = 0 ∧ rank b = 3) ∨ (rank a = 3 ∧ rank b = 0) := by
  have hp : rank "pending" = 0 := by decide
  have hr : rank "review" = 3 := by decide
  have hreview : ∀ {c}, Named c → rank c = 3 → c = "review" := fun hc h =>
    named_inj hc (Or.inr (by decide)) (by rw [h, hr])
  unfold settle
  constructor
  · grind
  · rintro (h | ⟨h1, h2⟩ | ⟨h1, h2⟩)
    · rw [named_inj ha hb h]
    · rw [named_inj ha (Or.inl rfl) (by rw [h1, hp]), hreview hb h2]
      decide
    · rw [named_inj hb (Or.inl rfl) (by rw [h2, hp]), hreview ha h1]
      decide

inductive StepKind
  | rule | scorecard | outcome | decisionTable
  | connector | action | reviewGate | transform | model
  | loop | branch | workflow | monitor
  | unhashable
  | other
  deriving DecidableEq, Repr

def stepTypes : List (String × StepKind) :=
  [("rule", .rule), ("scorecard", .scorecard), ("outcome", .outcome),
    ("decision_table", .decisionTable), ("connector", .connector), ("action", .action),
    ("review_gate", .reviewGate), ("transform", .transform), ("model", .model), ("loop", .loop),
    ("branch", .branch), ("workflow", .workflow), ("monitor", .monitor)]

/-- `step.get("type")`; a list or an object cannot be looked up in a set. -/
def stepKind (step : Value) : StepKind :=
  match step.field "type" with
  | some (.str s) => (stepTypes.lookup s).getD .other
  | some (.list _) | some (.dict _) => .unhashable
  | _ => .other

/-- `step.get("ref_id") or step.get("ref")`. -/
def refId (step : Value) : Value :=
  Value.orElse (step.field "ref_id") ((step.field "ref").getD .null)

/-- `collection.get(key)` for a key of any type. -/
def pyGet (collection : List (String × Value)) : Value → Except PyError (Option Value)
  | .str s => .ok (collection.lookup s)
  | .list _ | .dict _ => .error .typeError
  | _ => .ok none

/-- `collection.get(key)`, with what is empty taken for missing. -/
def pyGetTruthy (collection : List (String × Value)) (key : Value) :
    Except PyError (Option Value) := do
  let found ← pyGet collection key
  .ok (found.filter Value.truthy)

/-! ### Rule definitions -/

def bareGroup : Value :=
  .dict [("type", .str "group"), ("logic", .str "AND"), ("children", .list []),
    ("onPass", .str "approve"), ("onFail", .str "reject")]

/-- `a or b`, both read off a node. -/
def eitherField (node : Value) (a b : String) : Value :=
  Value.orElse (node.field a) ((node.field b).getD .null)

def flatCondition (py : PyText) (node : Value) : Value :=
  let get (key : String) : Value := (node.field key).getD .null
  let value2 : List (String × Value) :=
    if (get "value2").isNull then [] else [("value2", parseRuleValue py (get "value2"))]
  let fieldType := eitherField node "fieldType" "field_type"
  let fieldType : List (String × Value) :=
    if fieldType.isNull then [] else [("fieldType", fieldType)]
  .dict ([("type", .str "condition"), ("id", get "id"), ("variable", get "variable"),
    ("operator", (node.field "operator").getD (.str "==")),
    ("value", parseRuleValue py (get "value"))] ++ value2 ++ fieldType)

structure FlatTree where
  logic : String
  outcome : String
  children : List Value

/-- One node of the loop of `nodes_to_tree`. -/
def addNode (py : PyText) (t : FlatTree) (node : Value) : Except PyError FlatTree :=
  match node.asDict, node.field "type" with
  | none, _ => .error .attributeError
  | some _, some (.str s) =>
    if s = "condition" then .ok { t with children := t.children ++ [flatCondition py node] }
    else if s = "or" then .ok { t with logic := "OR" }
    else if s = "and" then .ok { t with logic := "AND" }
    else if s = "approve" ∨ s = "review" ∨ s = "reject" then .ok { t with outcome := s }
    else .ok t
  | some _, some (.list _) | some _, some (.dict _) => .error .typeError
  | some _, _ => .ok t

def FlatTree.tree (t : FlatTree) : Value :=
  .dict [("type", .str "group"), ("logic", .str t.logic), ("children", .list t.children),
    ("onPass", .str t.outcome), ("onFail", .str "reject")]

/-- `nodes_to_tree`: what is no list yields no objects, and fails at the first. -/
def nodesToTree (py : PyText) (nodes : Value) : Except PyError Value :=
  if nodes.truthy then
    match nodes with
    | .list ns => (ns.foldlM (addNode py) ⟨"AND", "approve", []⟩).map FlatTree.tree
    | .str _ | .dict _ => .error .attributeError
    | _ => .error .typeError
  else .ok bareGroup

/-- The functions a decision calls, on the variables it was given. -/
structure Evaluators where
  /-- `evaluate_rule_tree`. -/
  ruleTree : Value → Except PyError Value
  scorecard : Value → Except PyError Value
  decisionTable : Value → Except PyError Value

/-- `isinstance(tree, dict) and tree`. -/
def usableTree : Value → Bool
  | .dict (_ :: _) => true
  | _ => false

/-- The tree `evaluate_rule_definition` evaluates. -/
def definitionTree (py : PyText) (rule : Value) : Except PyError Value :=
  match rule.asDict, (rule.field "tree").filter usableTree with
  | none, _ => .error .attributeError
  | some _, some tree => .ok tree
  | some _, none => nodesToTree py ((rule.field "nodes").getD (.list []))

def evaluateRuleDefinition (py : PyText) (ev : Evaluators) (rule : Value) :
    Except PyError Value := do
  let tree ← definitionTree py rule
  ev.ruleTree tree

/-! ### The step loop -/

structure Catalog where
  rules : List (String × Value)
  scorecards : List (String × Value)
  decisionTables : List (String × Value)

/-- `ref_id or (step.get("config") or {}).get("outcome") or step.get("label") or "review"`. -/
def coreCandidate (step : Value) : Except PyError Value :=
  if (refId step).truthy then .ok (refId step)
  else
    match (Value.orElse (step.field "config") (.dict [])).asDict with
    | none => .error .attributeError
    | some config =>
      .ok (Value.orElse (config.lookup "outcome") (Value.orElse (step.field "label") (.str "review")))

section Core
variable (py : PyText) (ev : Evaluators) (catalog : Catalog)

/-- One step of `decide`. -/
def coreStep (outcome : String) (step : Value) : Except PyError String :=
  match step.asDict with
  | none => .error .attributeError
  | some _ =>
    match stepKind step with
    | .rule => do
      match ← pyGetTruthy catalog.rules (refId step) with
      | none => .ok outcome
      | some rule => do
        let evaluation ← evaluateRuleDefinition py ev rule
        .ok (pyMergeOutcome py outcome ((evaluation.field "outcome").getD .null))
    | .scorecard => do
      match ← pyGetTruthy catalog.scorecards (refId step) with
      | none => .ok outcome
      | some scorecard => do
        let _ ← ev.scorecard scorecard
        .ok outcome
    | .outcome => do
      let candidate ← coreCandidate step
      .ok (pyMergeOutcome py outcome candidate)
    | .decisionTable => do
      match ← pyGetTruthy catalog.decisionTables (refId step) with
      | none => .ok outcome
      | some table => do
        let result ← ev.decisionTable table
        match (result.field "outcome").filter Value.truthy with
        | some o => .ok (pyMergeOutcome py outcome o)
        | none => .ok outcome
    | .connector | .action | .reviewGate | .transform | .model => .ok outcome
    | .unhashable => .error .typeError
    | .loop | .branch | .workflow | .monitor | .other =>
      .ok (pyMergeOutcome py outcome (.str "review"))

/-- `decide`: the outcome of the policy's steps. -/
def coreDecide (steps : List Value) : Except PyError String :=
  (steps.foldlM (coreStep py ev catalog) "pending").map settle

end Core

end RuleMind
