/-
  `compile_bundle` of `app/compiler.py`: the production assets of a workspace as one
  bundle; and `decide` of `app/core/engine.py` on a bundle.

  The rows of the catalog are JSON values under the ids they are stored by.  Versions,
  times, checksums and the encrypted copy of a bundle are left out.
-/
import RuleMind.CompiledBundle
import RuleMind.SavedRule

namespace RuleMind.Compiler

/-! ### The catalog -/

structure Row where
  id : String
  value : Value
  named : value.field "id" = some (.str id)
  nonempty : id ≠ ""

def Row.isProd (r : Row) : Bool := r.value.field "status" = some (.str "prod")

theorem Row.asDict (r : Row) : ∃ kvs, r.value.asDict = some kvs := by
  obtain ⟨kvs, h, -⟩ := Value.field_eq_some r.named
  exact ⟨kvs, by rw [h]; rfl⟩

theorem Row.truthy (r : Row) : r.value.truthy = true := Value.truthy_of_field r.named

/-- The objects of one kind, each under an id of its own. -/
structure Rows where
  list : List Row
  ids : (list.map (·.id)).Nodup

def Rows.prod (rows : Rows) : List Row := rows.list.filter (·.isProd)

/-- Rows written one after the other under their ids. -/
def keyed (f : Row → Value) (rows : List Row) (d : Dict) : Dict :=
  rows.foldl (fun d r => setKey d r.id (f r)) d

/-- `{item["id"]: item for item in rows}`. -/
def Rows.map (rows : Rows) : Dict := keyed (·.value) rows.list []

structure Assets where
  vars : Rows
  rules : Rows
  scorecards : Rows
  decisionTables : Rows
  policies : Rows
  experiments : Rows

/-! ### Compiling -/

inductive CompileError
  | noProductionAssets
  | compilation (entityId reason : String)
  | raised (e : PyError)
  deriving DecidableEq

structure CompiledVariables where
  compiled : List Value
  serverOnly : List Value
  warnings : List Value

/-- The loop over the variables; `compile_variable` gives the code of one, or the reason why
    there is none. -/
def compileVariables (compileVariable : Value → Except String Value) :
    List Row → Except CompileError CompiledVariables
  | [] => .ok ⟨[], [], []⟩
  | v :: vs =>
    match compileVariable v.value with
    | .ok compiled => do
      let rest ← compileVariables compileVariable vs
      .ok { rest with compiled := compiled :: rest.compiled }
    | .error reason =>
      if reason.startsWith "syntax_error:" then .error (.compilation v.id reason)
      else do
        let rest ← compileVariables compileVariable vs
        let warning : Value := .dict [("entity_type", .str "variable"), ("entity_id", .str v.id),
          ("detail", .str reason)]
        .ok { rest with
          serverOnly := .str v.id :: rest.serverOnly
          warnings := warning :: rest.warnings }

section Compile
variable (py : PyText) (frames : ℕ)

/-- `rule.get("nodes") or flatten_tree_to_nodes(rule.get("tree"))`. -/
def compiledNodes (rule : Value) : Except PyError Value :=
  let nodes := (rule.field "nodes").getD .null
  if nodes.truthy then .ok nodes
  else (SavedRule.flattenTreeToNodes py frames ((rule.field "tree").getD .null)).map fun nodes =>
    .list (nodes.map .dict)

def compileRule (rule : Value) : Except PyError Value := do
  let nodes ← compiledNodes py frames rule
  .ok (.dict [("id", (rule.field "id").getD .null), ("name", (rule.field "name").getD .null),
    ("ruleFormat", (rule.field "rule_format").getD (.str "v1")),
    ("tree", (rule.field "tree").getD .null), ("nodes", nodes),
    ("expression", (rule.field "expression").getD .null),
    ("status", (rule.field "status").getD .null)])

end Compile

def bundledKinds : List StepKind :=
  [.connector, .rule, .scorecard, .decisionTable, .transform, .action, .reviewGate, .outcome]

/-- The loop over the steps of a policy: those that are kept, and the ids of the others. -/
def compileSteps : List Value → Except PyError (List Value × List Value)
  | [] => .ok ([], [])
  | step :: steps =>
    match step.asDict, stepKind step with
    | none, _ => .error .attributeError
    | some _, .unhashable => .error .typeError
    | some _, kind => do
      let (edge, server) ← compileSteps steps
      if kind ∈ bundledKinds then .ok (step :: edge, server)
      else
        let id := Value.orElse (step.field "id") (refId step)
        .ok (edge, if id.truthy then id :: server else server)

/-- `policy.get("steps", [])`, iterated. -/
def policySteps (policy : Value) : Except PyError (List Value) :=
  RuleTree.iterate (policy.field "steps")

def compilePolicy (policy : Value) : Except PyError Value := do
  let steps ← policySteps policy
  let (edge, server) ← compileSteps steps
  .ok (.dict [("id", (policy.field "id").getD .null), ("name", (policy.field "name").getD .null),
    ("steps", .list edge), ("serverOnlySteps", .list server),
    ("defaultOutcome", (policy.field "defaultOutcome").getD .null),
    ("trigger", (policy.field "trigger").getD .null)])

def compileTable (table : Value) : Value :=
  .dict [("id", (table.field "id").getD .null), ("name", (table.field "name").getD .null),
    ("hit_policy", (table.field "hit_policy").getD (.str "first")),
    ("inputs", (table.field "inputs").getD (.list [])),
    ("outputs", (table.field "outputs").getD (.list [])),
    ("rows", (table.field "rows").getD (.list [])),
    ("default_row", (table.field "default_row").getD .null)]

def ofPyCompile {α : Type} (x : Except PyError α) : Except CompileError α := x.mapError .raised

/-- `compile_bundle`, as far as the content of the bundle. -/
def compileBundle (py : PyText) (frames : ℕ) (compileVariable : Value → Except String Value)
    (assets : Assets) : Except CompileError Dict := do
  let vars := assets.vars.prod
  let rules := assets.rules.prod
  let scorecards := assets.scorecards.prod
  let tables := assets.decisionTables.prod
  let policies := assets.policies.prod
  let experiments := assets.experiments.list.filter fun e =>
    e.value.field "status" = some (.str "running")
  if vars.isEmpty && rules.isEmpty && scorecards.isEmpty && policies.isEmpty then
    .error .noProductionAssets
  else do
    let compiled ← compileVariables compileVariable vars
    let compiledRules ← ofPyCompile (rules.mapM fun r => compileRule py frames r.value)
    let compiledPolicies ← ofPyCompile (policies.mapM fun p => compilePolicy p.value)
    .ok [("variables", .list compiled.compiled), ("rules", .list compiledRules),
      ("scorecards", .list (scorecards.map (·.value))),
      ("decisionTables", .list (tables.map fun t => compileTable t.value)),
      ("policies", .list compiledPolicies),
      ("experiments", .list (experiments.map (·.value))),
      ("serverOnlyVariables", .list compiled.serverOnly),
      ("compilationWarnings", .list compiled.warnings)]

/-! ### The core on a bundle -/

section Core
variable (py : PyText)

def itemKey (item : Value) : Option String := ((item.field "id").filter Value.truthy).map py.str

/-- `_as_map`: of items of one id the last counts. -/
def asMap (collection : Option Value) : Dict :=
  match collection with
  | some (.dict kvs) => kvs
  | some (.list items) => items.foldl (fun d item =>
      match itemKey py item with
      | some key => setKey d key item
      | none => d) []
  | _ => []

/-- `{item.get("id"): item for item in policies}`, the ids being texts. -/
def policyMap (items : List Value) : Dict :=
  items.foldl (fun d item =>
    match (item.field "id").bind Value.asStr with
    | some key => setKey d key item
    | none => d) []

def selectPolicy (bundle : Dict) (policyId : Option String) : Except PyError Value :=
  match (bundle.lookup "policy").filter fun p => p.asDict.isSome with
  | some policy => .ok policy
  | none =>
    let policies : Dict := match Value.orElse (bundle.lookup "policies") (.dict []) with
      | .list items => policyMap items
      | .dict kvs => kvs
      | _ => []
    match (policyId.filter (· ≠ "")).bind fun id => policies.lookup id with
    | some policy => .ok policy
    | none =>
      match policies with
      | [(_, policy)] => .ok policy
      | _ => .error .valueError

/-- `validate_input`; without a schema there is nothing to check. -/
def inputErrors (validateInput : Value → Value → Except PyError (List String))
    (payload schema : Value) : Except PyError (List String) :=
  if schema.truthy then validateInput payload schema else .ok []

/-- `decide` on variables that are given, with a validation that is not strict. -/
def decideBundle (ev : Evaluators) (validateInput : Value → Value → Except PyError (List String))
    (bundle : Dict) (payload : Value) (policyId : Option String) : Except PyError String := do
  let policy ← selectPolicy bundle policyId
  let schema := Value.orElse (policy.field "input_schema")
    ((bundle.lookup "input_schema").getD .null)
  let _ ← inputErrors validateInput payload schema
  let steps ← policySteps policy
  coreDecide py ev ⟨asMap py (bundle.lookup "rules"), asMap py (bundle.lookup "scorecards"),
    asMap py (bundle.lookup "decision_tables")⟩ steps

end Core

/-! ### Rows found by their ids -/

section Rows
variable {py : PyText}

variable {f : Row → Value} {rows : List Row} {r : Row}

theorem keyed_lookup_other {d : Dict} {id : String}
    (h : ∀ r ∈ rows, r.id ≠ id) : (keyed f rows d).lookup id = d.lookup id := by
  induction rows generalizing d with
  | nil => rfl
  | cons r rows ih =>
    show (keyed f rows (setKey d r.id (f r))).lookup id = _
    rw [ih fun s hs => h s (List.mem_cons_of_mem _ hs), lookup_setKey,
      if_neg (h r List.mem_cons_self).symm]

theorem keyed_lookup (hids : (rows.map (·.id)).Nodup)
    (hr : r ∈ rows) (d : Dict) : (keyed f rows d).lookup r.id = some (f r) := by
  induction rows generalizing d with
  | nil => cases hr
  | cons s rows ih =>
    obtain ⟨hs, hids⟩ := List.nodup_cons.1 hids
    show (keyed f rows (setKey d s.id (f s))).lookup r.id = _
    rcases List.mem_cons.1 hr with rfl | hr
    · rw [keyed_lookup_other fun t ht he => hs (List.mem_map.2 ⟨t, ht, he⟩), lookup_setKey,
        if_pos rfl]
    · exact ih hids hr _

theorem itemKey_named {id : String} {v : Value} (hv : v.field "id" = some (.str id))
    (hid : id ≠ "") : itemKey py v = some id := by
  have htruthy : Value.truthy (.str id) = true := by simp [Value.truthy, hid]
  unfold itemKey
  rw [hv, Option.filter_some, if_pos htruthy]
  rfl

theorem asMap_keyed (hf : ∀ r ∈ rows, (f r).field "id" = some (.str r.id)) :
    asMap py (some (.list (rows.map f))) = keyed f rows [] := by
  have hfold : ∀ d : Dict, (rows.map f).foldl (fun d item =>
      match itemKey py item with
      | some key => setKey d key item
      | none => d) d = keyed f rows d := by
    induction rows with
    | nil => exact fun d => rfl
    | cons r rows ih =>
      intro d
      have hkey : itemKey py (f r) = some r.id := itemKey_named (hf r List.mem_cons_self) r.nonempty
      simp only [List.map_cons, List.foldl_cons, hkey]
      exact ih (fun s hs => hf s (List.mem_cons_of_mem _ hs)) _
  exact hfold []

theorem policyMap_keyed (hf : ∀ r ∈ rows, (f r).field "id" = some (.str r.id)) :
    policyMap (rows.map f) = keyed f rows [] := by
  have hfold : ∀ d : Dict, (rows.map f).foldl (fun d item =>
      match (item.field "id").bind Value.asStr with
      | some key => setKey d key item
      | none => d) d = keyed f rows d := by
    induction rows with
    | nil => exact fun d => rfl
    | cons r rows ih =>
      intro d
      have hkey : ((f r).field "id").bind Value.asStr = some r.id := by
        rw [hf r List.mem_cons_self]
        rfl
      simp only [List.map_cons, List.foldl_cons, hkey]
      exact ih (fun s hs => hf s (List.mem_cons_of_mem _ hs)) _
  exact hfold []

theorem Rows.prod_ids (rows : Rows) : (rows.prod.map (·.id)).Nodup :=
  rows.ids.sublist (List.filter_sublist.map _)

theorem Rows.mem_of_prod {rows : Rows} (h : r ∈ rows.prod) : r ∈ rows.list :=
  List.mem_of_mem_filter h

theorem Rows.map_lookup {rows : Rows} (h : r ∈ rows.list) :
    rows.map.lookup r.id = some r.value := keyed_lookup rows.ids h []

end Rows

/-! ### What is compiled is read alike -/

section Compiled
variable {py : PyText} {frames : ℕ}

theorem flatten_unusable {tree : Value} (h : usableTree tree = false) {nodes : List Dict}
    (hf : SavedRule.flattenTreeToNodes py frames tree = .ok nodes) : nodes = [] := by
  unfold SavedRule.flattenTreeToNodes at hf
  split at hf
  · rename_i ht
    obtain ⟨s, hs, -⟩ := bind_eq_ok.1 hf
    have hnone : tree.asDict = none := by
      match tree with
      | .dict [] => cases ht
      | .dict (_ :: _) => cases h
      | .null | .bool _ | .int _ | .float _ | .inf _ | .str _ | .list _ => rfl
    cases frames with
    | zero => cases hs
    | succ frames =>
      rw [SavedRule.flattenWalk, hnone] at hs
      cases hs
  · cases hf
    rfl

theorem nodesToTree_falsy {nodes : Value} (h : nodes.truthy = false) :
    nodesToTree py nodes = .ok bareGroup := by
  unfold nodesToTree
  rw [h]
  rfl

theorem definitionTree_dict {rule : Value} {kvs : Dict} (hdict : rule.asDict = some kvs) :
    definitionTree py rule =
      ((rule.field "tree").filter usableTree).elim
        (nodesToTree py ((rule.field "nodes").getD (.list []))) .ok := by
  grind [definitionTree]

theorem definitionTree_compiled {rule compiled : Value} {kvs : Dict}
    (hdict : rule.asDict = some kvs) (h : compileRule py frames rule = .ok compiled) :
    definitionTree py compiled = definitionTree py rule := by
  obtain ⟨nodes, hnodes, h⟩ := bind_eq_ok.1 h
  cases h
  rw [definitionTree_dict hdict, definitionTree_dict rfl]
  show ((some ((rule.field "tree").getD .null)).filter usableTree).elim
    (nodesToTree py nodes) .ok = _
  have htree : (some ((rule.field "tree").getD .null)).filter usableTree =
      (rule.field "tree").filter usableTree := by
    cases rule.field "tree" with
    | none => rfl
    | some tree => rfl
  rw [htree]
  cases hf : (rule.field "tree").filter usableTree with
  | some tree => rfl
  | none =>
    show nodesToTree py nodes = nodesToTree py ((rule.field "nodes").getD (.list []))
    unfold compiledNodes at hnodes
    dsimp only at hnodes
    split at hnodes
    · rename_i hn
      cases hnodes
      cases hfield : rule.field "nodes" with
      | none => rw [hfield] at hn; cases hn
      | some v => rfl
    · rename_i hn
      obtain ⟨flat, hflat, rfl⟩ := map_eq_ok.1 hnodes
      have hunusable : usableTree ((rule.field "tree").getD .null) = false := by
        cases ht : rule.field "tree" with
        | none => rfl
        | some tree =>
          rw [ht] at hf
          simpa [Option.filter] using hf
      rw [flatten_unusable hunusable hflat]
      have hfalsy : ((rule.field "nodes").getD (.list [])).truthy = false := by
        cases hfield : rule.field "nodes" with
        | none => rfl
        | some v => rw [hfield] at hn; simpa using hn
      rw [nodesToTree_falsy hfalsy]
      rfl

theorem compileSteps_kept {steps : List Value}
    (h : ∀ step ∈ steps, step.asDict.isSome = true ∧ stepKind step ∈ bundledKinds) :
    compileSteps steps = .ok (steps, []) := by
  induction steps with
  | nil => rfl
  | cons step steps ih =>
    obtain ⟨hdict, hkind⟩ := h step List.mem_cons_self
    obtain ⟨kvs, hkvs⟩ := Option.isSome_iff_exists.1 hdict
    have hhash : stepKind step ≠ .unhashable := by
      rintro heq
      rw [heq] at hkind
      exact absurd hkind (by decide)
    simp_all [compileSteps, bind, Except.bind]

end Compiled

/-! ### The content of a bundle -/

section Content
variable {py : PyText} {frames : ℕ} {compileVariable : Value → Except String Value}
variable {assets : Assets} {content : Dict}

def compiledRow (compile : Value → Except PyError Value) (r : Row) : Value :=
  (compile r.value).toOption.getD .null

theorem mapM_compiled {compile : Value → Except PyError Value} {rows : List Row} {vs : List Value}
    (h : (rows.mapM fun r => compile r.value) = .ok vs) :
    vs = rows.map (compiledRow compile) ∧
      ∀ r ∈ rows, compile r.value = .ok (compiledRow compile r) := by
  have hall := mapM_eq_ok.1 h
  induction hall with
  | nil => exact ⟨rfl, List.forall_mem_nil _⟩
  | @cons r v rows vs hr hrest ih =>
    obtain ⟨rfl, hrows⟩ := ih (mapM_eq_ok.2 hrest)
    have hv : compiledRow compile r = v := by
      rw [compiledRow, hr]
      rfl
    simp_all

/-- The rules, scorecards and policies of a bundle; its tables stand under another key than
    the core reads. -/
structure Content (py : PyText) (frames : ℕ) (assets : Assets) (content : Dict) : Prop where
  rules : content.lookup "rules" =
    some (.list (assets.rules.prod.map (compiledRow (compileRule py frames))))
  compiledRule : ∀ r ∈ assets.rules.prod,
    compileRule py frames r.value = .ok (compiledRow (compileRule py frames) r)
  scorecards : content.lookup "scorecards" = some (.list (assets.scorecards.prod.map (·.value)))
  tables : content.lookup "decision_tables" = none
  policy : content.lookup "policy" = none
  policies : content.lookup "policies" =
    some (.list (assets.policies.prod.map (compiledRow compilePolicy)))
  compiledPolicy : ∀ p ∈ assets.policies.prod,
    compilePolicy p.value = .ok (compiledRow compilePolicy p)
  schema : content.lookup "input_schema" = none

theorem ofPyCompile_eq_ok {α : Type} {x : Except PyError α} {a : α} :
    ofPyCompile x = .ok a ↔ x = .ok a := mapError_eq_ok

theorem compileBundle_content (h : compileBundle py frames compileVariable assets = .ok content) :
    Content py frames assets content := by
  unfold compileBundle at h
  dsimp only at h
  split at h
  · cases h
  · obtain ⟨compiled, -, h⟩ := bind_eq_ok.1 h
    obtain ⟨rules, hrules, h⟩ := bind_eq_ok.1 h
    obtain ⟨policies, hpolicies, h⟩ := bind_eq_ok.1 h
    cases h
    obtain ⟨rfl, hrule⟩ := mapM_compiled (ofPyCompile_eq_ok.1 hrules)
    obtain ⟨rfl, hpolicy⟩ := mapM_compiled (ofPyCompile_eq_ok.1 hpolicies)
    exact ⟨rfl, hrule, rfl, rfl, rfl, rfl, hpolicy, rfl⟩

theorem compileRule_id {rule compiled : Value} (h : compileRule py frames rule = .ok compiled) :
    compiled.field "id" = some ((rule.field "id").getD .null) := by
  obtain ⟨nodes, -, h⟩ := bind_eq_ok.1 h
  cases h
  rfl

theorem compilePolicy_id {policy compiled : Value} (h : compilePolicy policy = .ok compiled) :
    compiled.field "id" = some ((policy.field "id").getD .null) := by
  obtain ⟨steps, -, h⟩ := bind_eq_ok.1 h
  obtain ⟨⟨edge, server⟩, -, h⟩ := bind_eq_ok.1 h
  cases h
  rfl

theorem Content.rule_lookup (h : Content py frames assets content) {r : Row}
    (hr : r ∈ assets.rules.prod) : (asMap py (content.lookup "rules")).lookup r.id =
      some (compiledRow (compileRule py frames) r) := by
  rw [h.rules, asMap_keyed fun s hs => by rw [compileRule_id (h.compiledRule s hs), s.named]; rfl]
  exact keyed_lookup assets.rules.prod_ids hr []

theorem Content.scorecard_lookup (h : Content py frames assets content) {r : Row}
    (hr : r ∈ assets.scorecards.prod) :
    (asMap py (content.lookup "scorecards")).lookup r.id = some r.value := by
  rw [h.scorecards, asMap_keyed fun s _ => s.named]
  exact keyed_lookup assets.scorecards.prod_ids hr []

theorem Content.selectPolicy (h : Content py frames assets content) {p : Row}
    (hp : p ∈ assets.policies.prod) :
    selectPolicy content (some p.id) = .ok (compiledRow compilePolicy p) := by
  have hlookup : (policyMap (assets.policies.prod.map (compiledRow compilePolicy))).lookup p.id =
      some (compiledRow compilePolicy p) := by
    rw [policyMap_keyed fun s hs => by rw [compilePolicy_id (h.compiledPolicy s hs), s.named]; rfl]
    exact keyed_lookup assets.policies.prod_ids hp []
  have hlist : Value.orElse (content.lookup "policies") (.dict []) =
      .list (assets.policies.prod.map (compiledRow compilePolicy)) := by
    refine Value.orElse_of_any h.policies ?_
    cases hprod : assets.policies.prod with
    | nil => rw [hprod] at hp; cases hp
    | cons q qs => rfl
  have hid : (some p.id).filter (· ≠ "") = some p.id := by simp [p.nonempty]
  grind [Compiler.selectPolicy, policy]

end Content

end RuleMind.Compiler
