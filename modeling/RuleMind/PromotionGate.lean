/-
  The promotion gate of `app/routers/policies.py`: before a policy is promoted, the rules
  of its steps are handed to the analysis of `app/mece.py`.
-/
import RuleMind.MutualExclusion
import RuleMind.RuleEvaluation
import RuleMind.SavedRule

namespace RuleMind.PromotionGate

open SavedRule
open Mece (Diagnostic Definition NodeType)

/-! ### The gate -/

def nodeTypes : List (String × NodeType) :=
  [("condition", .condition), ("score", .score), ("and", .and), ("or", .or), ("group", .group),
    ("not", .not), ("trigger", .trigger), ("approve", .outcome), ("reject", .outcome),
    ("review", .outcome)]

def nodeType (v : Value) : NodeType := (v.asStr.bind fun s => nodeTypes.lookup s).getD .other

/-- A value as the key of a dictionary: values that are equal keys have one text. -/
def keyText : Value → Except PyError String
  | .list _ | .dict _ => .error .typeError
  | .str s => .ok ("s" ++ s)
  | .null => .ok "n"
  | .inf neg => .ok (if neg then "-i" else "i")
  | v => .ok ("q" ++ ((v.numeric.getD 0).num.repr ++ "/" ++ (v.numeric.getD 0).den.repr))

/-- `obj[key]`. -/
def require (kvs : Dict) (key : String) : Except Refusal Value :=
  match kvs.lookup key with
  | some v => .ok v
  | none => .error (.keyError key)

def asObject (v : Value) : Except Refusal Dict :=
  match v.asDict with
  | some kvs => .ok kvs
  | none => .error (.raised .typeError)

def readNode (node : Value) : Except Refusal Mece.Node := do
  let kvs ← asObject node
  let id ← require kvs "id"
  let id ← ofPy (keyText id)
  let type ← require kvs "type"
  .ok ⟨id, nodeType type, (kvs.lookup "config").getD .null⟩

def readConnection (connection : Value) : Except Refusal (String × String) := do
  let kvs ← asObject connection
  let source ← require kvs "from"
  let source ← ofPy (keyText source)
  let target ← require kvs "to"
  let target ← ofPy (keyText target)
  .ok (source, target)

def readDefinition (definition : Dict) : Except Refusal Definition := do
  let nodes ← items (definition.lookup "nodes")
  let nodes ← nodes.mapM readNode
  let connections ← items (definition.lookup "connections")
  let connections ← connections.mapM readConnection
  .ok ⟨((definition.lookup "conditions").bind Value.asList).getD [], nodes, connections⟩

/-- `rule.get("definition") or {"nodes": ..., "connections": ...}`. -/
def ruleDefinition (row : Value) : Value :=
  Value.orElse (row.field "definition")
    (.dict [("nodes", (row.field "nodes").getD (.list [])),
      ("connections", (row.field "connections").getD (.list []))])

def ruleInput (row : Value) : Except Refusal Mece.Rule := do
  let kvs ← asObject row
  let id ← require kvs "id"
  let id ← ofPy (keyText id)
  let definition ← asObject (ruleDefinition row)
  let definition ← readDefinition definition
  .ok ⟨id, some definition, []⟩

section Gate
variable (py : PyText) (rules : Dict)

/-- The row of a step, if it is a rule step of a stored rule. -/
def gatedRow (step : Value) : Except Refusal (Option Value) := do
  match step.asDict with
  | none => .error (.raised .attributeError)
  | some kvs =>
    if kvs.lookup "type" = some (.str "rule") then ofPy (pyGet rules (refId step)) else .ok none

def gatedRows (steps : List Value) : Except Refusal (List Value) := do
  let rows ← steps.mapM (gatedRow rules)
  .ok rows.reduceOption

def isHard (d : Diagnostic) : Bool := d.type = .overlap && d.severity = .error

/-- The hard overlaps the gate finds; of fewer than two rules it asks for none. -/
def hardOverlaps (steps : List Value) : Except Refusal (List Diagnostic) := do
  let rows ← gatedRows rules steps
  let inputs ← rows.mapM ruleInput
  if 1 < inputs.length then do
    let report ← ofPy (Mece.analyzeMece py inputs)
    .ok (report.diagnostics.filter isHard)
  else .ok []

/-- `promote_policy`, up to the promotion itself. -/
def promotePolicy (skipMece : Bool) (policy : Option (List Value)) : Except Refusal Unit :=
  match policy with
  | none => .ok ()
  | some steps =>
    if skipMece then .ok ()
    else do
      let hard ← hardOverlaps py rules steps
      refuseUnless hard.isEmpty
        "Promotion blocked: MECE overlap detected between rules in this policy."

end Gate

/-! ### The rules a policy runs -/

/-- `PolicyStepModel`. -/
structure PolicyStep where
  type : String
  refId : Option String
  ref : Option String
  id : Option String
  name : Option String
  label : Option String
  config : Option Dict

/-- `item.model_dump()`. -/
def PolicyStep.dump (s : PolicyStep) : Value :=
  .dict [("type", .str s.type), ("ref_id", textOrNull s.refId), ("ref", textOrNull s.ref),
    ("id", textOrNull s.id), ("name", textOrNull s.name), ("label", textOrNull s.label),
    ("config", (s.config.map Value.dict).getD .null)]

def PolicyStep.names (ids : List String) (s : PolicyStep) : Bool :=
  s.type = "rule" && (RuleMind.refId s.dump).asStr.any (· ∈ ids)

section Runs
variable (py : PyText) (workflowAlias : String → String)
variable (policySteps : String → Option (List Value))

def subPolicy (step : Value) : String :=
  let name := Value.orElse ((stepConfig step).lookup "alias") ((step.field "alias").getD .null)
  if name.truthy then workflowAlias (py.str name) else stepRef py step

inductive Nested : Value → List Value → Prop
  | loop {step : Value} {steps : List Value} : stepKind step = .loop →
      stepList ((stepConfig step).lookup "steps") = .ok steps → Nested step steps
  | branch {step branch : Value} {branches steps : List Value} : stepKind step = .branch →
      stepList ((stepConfig step).lookup "branches") = .ok branches → branch ∈ branches →
      stepList (branch.field "steps") = .ok steps → Nested step steps
  | default {step : Value} {steps : List Value} : stepKind step = .branch →
      stepList ((stepConfig step).lookup "default") = .ok steps → Nested step steps
  | workflow {step : Value} {steps : List Value} : stepKind step = .workflow →
      policySteps (subPolicy py workflowAlias step) = some steps → Nested step steps

/-- The rules of the steps, and of those nested in them. -/
inductive Runs : List Value → String → Prop
  | rule {step : Value} {steps : List Value} : step ∈ steps → stepKind step = .rule →
      Runs steps (stepRef py step)
  | nested {step : Value} {steps below : List Value} {ref : String} : step ∈ steps →
      Nested py workflowAlias policySteps step below → Runs below ref → Runs steps ref

end Runs

/-- `evaluate_rule_definition` passes the rule. -/
def passes (py : PyText) (search : RegexSearch) (catalog vars : Dict) (rule : Value) : Bool :=
  match RuleTree.evaluateDefinition py search catalog vars rule with
  | .ok result => result.field "passed" == some (.bool true)
  | .error _ => false

/-- No map of variables passes two of the rules the steps run. -/
def Exclusive (py : PyText) (search : RegexSearch) (catalog : Dict)
    (workflowAlias : String → String) (policySteps : String → Option (List Value)) (rules : Dict)
    (steps : List Value) : Prop :=
  ∀ a b ruleA ruleB, Runs py workflowAlias policySteps steps a →
    Runs py workflowAlias policySteps steps b → a ≠ b →
    rules.lookup a = some ruleA → rules.lookup b = some ruleB →
    ∀ vars, ¬ (passes py search catalog vars ruleA = true ∧
      passes py search catalog vars ruleB = true)

/-! ### The analysis sees no constraint -/

/-- A definition of nodes alone, none of them configured. -/
structure Bare (d : Definition) : Prop where
  conditions : d.conditions = []
  connections : d.connections = []
  config : ∀ n ∈ d.nodes, n.config = .null

section Bare
variable {py : PyText} {d : Definition}

theorem Bare.children (h : Bare d) (nid : String) : d.children nid = [] := by
  simp [Definition.children, h.connections]

theorem Bare.node (h : Bare d) {nid : String} {n : Mece.Node} (hn : d.node nid = some n) :
    n.config = .null :=
  h.config n (List.mem_reverse.1 (List.mem_of_find?_eq_some hn))

theorem configOf_null {n : Mece.Node} (h : n.config = .null) : n.configOf = .ok [] := by
  rw [Mece.Node.configOf, h]
  rfl

theorem Bare.walk (h : Bare d) (f : ℕ) (visiting : List String) (nid : String) :
    Mece.walk py d f visiting nid = .ok [[]] := by
  cases f with
  | zero => rfl
  | succ f =>
    rw [Mece.walk]
    split
    · rfl
    · cases hn : d.node nid with
      | none => rfl
      | some n =>
        have hc := configOf_null (h.node hn)
        have hrole : n.role = .ok (if n.type = .group then .and else n.type) := by
          unfold Mece.Node.role
          split_ifs
          · rw [hc]
            rfl
          · rfl
        simp only [h.children, hrole, hc]
        cases n.type <;> rfl

theorem Bare.space (h : Bare d) {branches : List Mece.Branch}
    (hb : Mece.constraintSpace py d = .ok branches) :
    branches ≠ [] ∧ ∀ b ∈ branches, b = [] := by
  rw [Mece.constraintSpace, h.conditions] at hb
  obtain ⟨parts, hparts, hbranches⟩ := bind_eq_ok.1 hb
  cases hbranches
  have hempty : ∀ b ∈ parts.flatten, b = [] := by
    intro b hb
    obtain ⟨part, hpart, hbp⟩ := List.mem_flatten.1 hb
    obtain ⟨nid, -, hwalk⟩ := (mapM_mem hparts).2 part hpart
    rw [h.walk] at hwalk
    cases hwalk
    exact List.mem_singleton.1 hbp
  unfold Mece.orUnconstrained
  cases hflat : parts.flatten with
  | nil => exact ⟨by decide, by decide⟩
  | cons b bs => grind [Mece.BRANCH_CAP]

end Bare

/-! ### Two rules at the top -/

theorem readNode_config {node : Dict} {n : Mece.Node} (hnode : node.lookup "config" = none)
    (h : readNode (.dict node) = .ok n) : n.config = .null := by
  obtain ⟨kvs, hkvs, h⟩ := bind_eq_ok.1 h
  cases hkvs
  grind [bind_eq_ok]

theorem items_list {vs ws : List Value} (h : items (some (.list vs)) = .ok ws) : ws = vs := by
  cases vs with
  | nil =>
    cases h
    rfl
  | cons v vs =>
    cases h
    rfl

variable {id : String} {rules : Dict} {ids : List String}

theorem ruleInput_bare {name : String} {rule : NormalizedRule} {input : Mece.Rule}
    (hrule : Unconfigured rule.nodes) (h : ruleInput (ruleRow id name rule) = .ok input) :
    Bare input.defn := by
  obtain ⟨kvs, hkvs, h⟩ := bind_eq_ok.1 h
  cases hkvs
  obtain ⟨id, -, h⟩ := bind_eq_ok.1 h
  obtain ⟨key, -, h⟩ := bind_eq_ok.1 h
  obtain ⟨definition, hdef, h⟩ := bind_eq_ok.1 h
  cases hdef
  obtain ⟨d, hd, h⟩ := bind_eq_ok.1 h
  cases h
  show Bare d
  obtain ⟨ns, hns, hd⟩ := bind_eq_ok.1 hd
  obtain ⟨nodes, hnodes, hd⟩ := bind_eq_ok.1 hd
  obtain ⟨cs, hcs, hd⟩ := bind_eq_ok.1 hd
  obtain ⟨connections, hconnections, hd⟩ := bind_eq_ok.1 hd
  cases hd
  obtain rfl : ns = rule.nodes.map .dict := items_list hns
  obtain rfl : cs = [] := items_list hcs
  cases hconnections
  refine ⟨rfl, rfl, fun n hn => ?_⟩
  obtain ⟨node, hmem, hread⟩ := (mapM_mem hnodes).2 n hn
  obtain ⟨kvs, hkvs, rfl⟩ := List.mem_map.1 hmem
  exact readNode_config (hrule kvs hkvs) hread

theorem pairDiagnostic_bare {ra rb : Mece.RuleSpace}
    (ha : ra.branches ≠ [] ∧ ∀ b ∈ ra.branches, b = [])
    (hb : rb.branches ≠ [] ∧ ∀ b ∈ rb.branches, b = []) :
    Mece.pairDiagnostic ra rb = some ⟨.overlap, .error, [], [ra.id, rb.id]⟩ := by
  obtain ⟨a, as, has⟩ := List.exists_cons_of_ne_nil ha.1
  obtain ⟨b, bs, hbs⟩ := List.exists_cons_of_ne_nil hb.1
  obtain rfl : a = [] := ha.2 a (by rw [has]; exact List.mem_cons_self)
  obtain rfl : b = [] := hb.2 b (by rw [hbs]; exact List.mem_cons_self)
  rw [Mece.pairDiagnostic, has, hbs]
  rfl

theorem hardOverlaps_two {py : PyText} {variableIds : List String}
    {steps : List Value} {rows : List Value} (hstored : Stored py variableIds rules)
    (hrows : gatedRows rules steps = .ok rows) (hmem : ∀ row ∈ rows, row ∈ rules.map Prod.snd)
    (htwo : 2 ≤ rows.length) : hardOverlaps py rules steps ≠ .ok [] := by
  intro h
  obtain ⟨rows', hrows', h⟩ := bind_eq_ok.1 h
  rw [hrows] at hrows'
  cases hrows'
  obtain ⟨inputs, hinputs, h⟩ := bind_eq_ok.1 h
  have hlen : 2 ≤ inputs.length := by
    rw [← (mapM_eq_ok.1 hinputs).length_eq]
    exact htwo
  rw [if_pos (show 1 < inputs.length from hlen)] at h
  obtain ⟨report, hreport, h⟩ := bind_eq_ok.1 h
  have hbare : ∀ input ∈ inputs, Bare input.defn := by
    intro input hinput
    obtain ⟨row, hrow, hread⟩ := (mapM_mem hinputs).2 input hinput
    obtain ⟨⟨id, row⟩, hrule, rfl⟩ := List.mem_map.1 (hmem row hrow)
    obtain ⟨request, rule, hsaved, rfl⟩ := hstored id row hrule
    exact ruleInput_bare (normalizeRulePayload_unconfigured hsaved) hread
  obtain ⟨spaces, hspaces, rfl⟩ := Mece.analyzeMece_ok hlen (ofPy_eq_ok.1 hreport)
  have hspace : ∀ space ∈ spaces, space.branches ≠ [] ∧ ∀ b ∈ space.branches, b = [] := by
    intro space hmem
    obtain ⟨input, hinput, hread⟩ := (mapM_mem hspaces).2 space hmem
    obtain ⟨branches, hbranches, rfl⟩ := map_eq_ok.1 hread
    exact (hbare input hinput).space hbranches
  -- the first pair of them is reported
  have hslen : 2 ≤ spaces.length := by
    rw [← (mapM_eq_ok.1 hspaces).length_eq]
    exact hlen
  obtain ⟨ra, rest, rfl⟩ : ∃ ra rest, spaces = ra :: rest :=
    List.exists_cons_of_ne_nil (by rintro rfl; simp at hslen)
  obtain ⟨rb, rest, rfl⟩ : ∃ rb rest', rest = rb :: rest' :=
    List.exists_cons_of_ne_nil (by rintro rfl; simp at hslen)
  have hpair := pairDiagnostic_bare (hspace ra List.mem_cons_self)
    (hspace rb (List.mem_cons_of_mem _ List.mem_cons_self))
  have hfirst : (⟨.overlap, .error, [], [ra.id, rb.id]⟩ : Diagnostic) ∈
      (Mece.pairReport (ra :: rb :: rest)).diagnostics := by
    refine List.mem_append_left _ (List.mem_append_left _ ?_)
    exact List.mem_filterMap.2 ⟨rb, List.mem_cons_self, hpair⟩
  have hhard := List.mem_filter.2 ⟨hfirst, show isHard _ = true from rfl⟩
  rw [Except.ok.inj h] at hhard
  cases hhard

/-! ### The rows the gate reads -/

/-- The row a step of a stored policy is gated by. -/
def PolicyStep.row (rules : Dict) (s : PolicyStep) : Option Value :=
  if s.type = "rule" then (RuleMind.refId s.dump).asStr.bind fun ref => rules.lookup ref else none

theorem refId_dump (s : PolicyStep) :
    RuleMind.refId s.dump = .null ∨ ∃ ref, RuleMind.refId s.dump = .str ref := by
  have htext : ∀ t : Option String, textOrNull t = .null ∨ ∃ ref, textOrNull t = .str ref := by
    intro t
    cases t with
    | none => exact Or.inl rfl
    | some ref => exact Or.inr ⟨ref, rfl⟩
  have heq : RuleMind.refId s.dump =
      if (textOrNull s.refId).truthy then textOrNull s.refId else textOrNull s.ref := rfl
  grind

theorem gatedRow_dump (rules : Dict) (s : PolicyStep) :
    gatedRow rules s.dump = .ok (s.row rules) := by
  unfold gatedRow PolicyStep.row
  show (if some (Value.str s.type) = some (.str "rule") then _ else _) = _
  simp only [Option.some.injEq, Value.str.injEq]
  split
  · rcases refId_dump s with h | ⟨ref, h⟩
    · rw [h]
      rfl
    · rw [h]
      rfl
  · rfl

theorem row_isSome (rules : Dict) (s : PolicyStep) :
    (s.row rules).isSome = s.names (rules.map Prod.fst) := by
  unfold PolicyStep.row PolicyStep.names
  by_cases htype : s.type = "rule"
  · rw [if_pos htype]
    rcases refId_dump s with h | ⟨ref, h⟩
    · simp [h, Value.asStr]
    · rw [h, Bool.eq_iff_iff]
      simp only [Value.asStr, Option.bind_some, List.lookup_isSome_iff, beq_iff_eq, htype,
        decide_true, Bool.true_and, Option.any_some, decide_eq_true_eq, List.mem_map, Prod.exists]
      grind
  · simp [htype]

theorem row_mem {s : PolicyStep} {row : Value} (h : s.row rules = some row) :
    row ∈ rules.map Prod.snd := by
  unfold PolicyStep.row at h
  split at h
  · obtain ⟨ref, -, hlookup⟩ := Option.bind_eq_some_iff.1 h
    obtain ⟨l, r, rfl, -⟩ := List.lookup_eq_some_iff.1 hlookup
    simp
  · cases h

theorem gatedRows_dump (rules : Dict) (steps : List PolicyStep) :
    ∃ rows, gatedRows rules (steps.map PolicyStep.dump) = .ok rows ∧
      rows.length = (steps.filter (·.names (rules.map Prod.fst))).length ∧
      ∀ row ∈ rows, row ∈ rules.map Prod.snd := by
  have hrows : (steps.map PolicyStep.dump).mapM (gatedRow rules) =
      .ok (steps.map (PolicyStep.row rules)) := by
    rw [mapM_eq_ok, List.forall₂_map_left_iff, List.forall₂_map_right_iff]
    exact List.forall₂_same.2 fun s _ => gatedRow_dump rules s
  refine ⟨(steps.map (PolicyStep.row rules)).reduceOption, ?_, ?_, fun row hrow => ?_⟩
  · unfold gatedRows
    rw [hrows]
    rfl
  · rw [List.reduceOption_length_eq, List.filter_map, List.length_map]
    refine congrArg List.length (List.filter_congr fun s _ => ?_)
    exact row_isSome rules s
  grind [List.reduceOption_mem_iff, row_mem]

/-! ### When the gate is sound -/

/-- What is said of the gate: if it finds no hard overlap, no two rules of the policy pass. -/
def GateSound (py : PyText) (search : RegexSearch) (catalog : Dict)
    (workflowAlias : String → String) (policySteps : String → Option (List Value)) (rules : Dict)
    (steps : List Value) : Prop :=
  hardOverlaps py rules steps = .ok [] →
    Exclusive py search catalog workflowAlias policySteps rules steps

def bareRequest : RuleUpsertRequest :=
  ⟨"Any", [⟨"outcome_1", "approve", none, none, none, none⟩], none⟩

def bareRule : NormalizedRule := ⟨bareRequest.nodes.map RuleNode.dump, bareGroup, "v1"⟩

theorem bareRequest_saved (py : PyText) (variableIds : List String) :
    normalizeRulePayload py variableIds bareRequest = .ok bareRule := by
  rfl

theorem bareRule_passes (py : PyText) (search : RegexSearch) (catalog vars : Dict)
    (id name : String) : passes py search catalog vars (ruleRow id name bareRule) = true := by
  have hlogic : RuleTree.pyLogic py bareGroup = "AND" := by
    show upper "AND" = "AND"
    decide
  obtain ⟨result, hresult⟩ : ∃ result, RuleTree.evaluateDefinition py search catalog vars
      (ruleRow id name bareRule) = .ok result := ⟨_, rfl⟩
  obtain ⟨overall, t, hnode, hpassed, -⟩ := RuleTree.evaluateTree_ok
    (show RuleTree.evaluateTree py search catalog vars bareGroup = .ok result from hresult)
  have hoverall : overall = true := by
    rw [← (Prod.mk.inj (Except.ok.inj hnode)).1]
    exact if_pos hlogic
  simp_all [passes]

/-- The rules of these ids, none of which has a condition. -/
def bareRules (ids : List String) : Dict := ids.map fun id => (id, ruleRow id "Any" bareRule)

theorem bareRules_stored (py : PyText) (variableIds ids : List String) :
    Stored py variableIds (bareRules ids) := by
  intro id row hmem
  obtain ⟨id', -, heq⟩ := List.mem_map.1 hmem
  cases heq
  exact ⟨bareRequest, bareRule, bareRequest_saved py variableIds, rfl⟩

theorem bareRules_lookup (h : id ∈ ids) :
    (bareRules ids).lookup id = some (ruleRow id "Any" bareRule) := by
  induction ids with
  | nil => cases h
  | cons a as ih =>
    show List.lookup id ((a, ruleRow a "Any" bareRule) :: bareRules as) = _
    grind

theorem bareRule_input (id name : String) :
    ∃ input, ruleInput (ruleRow id name bareRule) = .ok input := ⟨_, rfl⟩

theorem bareRules_gate (py : PyText) {steps : List PolicyStep}
    (hfew : (steps.filter (·.names ids)).length < 2) :
    hardOverlaps py (bareRules ids) (steps.map PolicyStep.dump) = .ok [] := by
  have hfst : (bareRules ids).map Prod.fst = ids := by simp [bareRules, Function.comp_def]
  obtain ⟨rows, hrows, hlen, hmem⟩ := gatedRows_dump (bareRules ids) steps
  rw [hfst] at hlen
  obtain ⟨inputs, hinputs⟩ : ∃ inputs, rows.mapM ruleInput = .ok inputs := by
    refine mapM_exists fun row hrow => ?_
    obtain ⟨⟨id, row⟩, hrule, rfl⟩ := List.mem_map.1 (hmem row hrow)
    obtain ⟨id', -, heq⟩ := List.mem_map.1 hrule
    cases heq
    exact bareRule_input id "Any"
  have hone : ¬ 1 < inputs.length := by
    rw [← (mapM_eq_ok.1 hinputs).length_eq, hlen]
    omega
  unfold hardOverlaps
  rw [hrows]
  show (rows.mapM ruleInput >>= _) = _
  rw [hinputs]
  exact if_neg hone

/-- The gate is sound, whatever rules are stored under these ids, if and only if two steps at
    the top name one of them, or the policy runs one of them at most. -/
theorem gate_sound_iff (py : PyText) (search : RegexSearch) (catalog : Dict)
    (workflowAlias : String → String) (policySteps : String → Option (List Value))
    (variableIds ids : List String) (steps : List PolicyStep) :
    (∀ rules, Stored py variableIds rules → rules.map Prod.fst = ids →
        GateSound py search catalog workflowAlias policySteps rules (steps.map PolicyStep.dump)) ↔
      2 ≤ (steps.filter (·.names ids)).length ∨
        ∀ a ∈ ids, ∀ b ∈ ids,
          Runs py workflowAlias policySteps (steps.map PolicyStep.dump) a →
          Runs py workflowAlias policySteps (steps.map PolicyStep.dump) b → a = b := by
  constructor
  · intro hsound
    rcases Nat.lt_or_ge (steps.filter (·.names ids)).length 2 with hfew | htwo
    · refine Or.inr fun a ha b hb hruna hrunb => ?_
      by_contra hne
      have hfst : (bareRules ids).map Prod.fst = ids := by simp [bareRules, Function.comp_def]
      have hgate : hardOverlaps py (bareRules ids) (steps.map PolicyStep.dump) = .ok [] :=
        bareRules_gate py hfew
      exact hsound _ (bareRules_stored py variableIds ids) hfst hgate a b _ _ hruna hrunb hne
        (bareRules_lookup ha) (bareRules_lookup hb) []
        ⟨bareRule_passes py search catalog [] a "Any", bareRule_passes py search catalog [] b "Any"⟩
    · exact Or.inl htwo
  · rintro (htwo | hone) rules hstored rfl hgate
    · obtain ⟨rows, hrows, hlen, hmem⟩ := gatedRows_dump rules steps
      grind [hardOverlaps_two]
    · intro a b ruleA ruleB hruna hrunb hne ha hb
      have hid : ∀ {c rule}, rules.lookup c = some rule → c ∈ rules.map Prod.fst := by
        intro c rule hc
        obtain ⟨l, r, rfl, -⟩ := List.lookup_eq_some_iff.1 hc
        simp
      exact absurd (hone a (hid ha) b (hid hb) hruna hrunb) hne

/-! ### A rule in a loop -/

/-- A tree of one condition, a score from a threshold on. -/
def scoreTree (threshold : ℤ) : Dict :=
  [("type", .str "group"), ("logic", .str "AND"),
    ("children", .list [.dict [("type", .str "condition"), ("variable", .str "score"),
      ("operator", .str ">="), ("value", .int threshold)]]),
    ("onPass", .str "approve"), ("onFail", .str "reject")]

def scoreRule (threshold : ℤ) : NormalizedRule :=
  ⟨[[("id", .str "condition_1"), ("type", .str "condition"), ("variable", .str "score"),
      ("operator", .str ">="), ("value", .str threshold.repr), ("label", .str "Condition")],
    [("id", .str "outcome_2"), ("type", .str "approve"), ("label", .str "Approve")]],
    .dict (scoreTree threshold), "v2"⟩

def scoreRules : Dict :=
  [("fair", ruleRow "fair" "Fair" (scoreRule 600)), ("good", ruleRow "good" "Good" (scoreRule 700))]

/-- The second of the rules runs for each item of a loop. -/
def loopedSteps : List PolicyStep :=
  [⟨"rule", some "fair", none, none, none, none, none⟩,
    ⟨"loop", none, none, none, none, none,
      some [("over", .str "$.payload.items"),
        ("steps", .list [.dict [("type", .str "rule"), ("ref_id", .str "good")]])]⟩]

theorem scoreRules_stored : Stored decimalPy ["score"] scoreRules := by
  intro id row hmem
  rcases List.mem_cons.1 hmem with heq | hmem
  · cases heq
    exact ⟨⟨"Fair", [], some (scoreTree 600)⟩, scoreRule 600,
      toOption_eq_some.1 (by decide +kernel), rfl⟩
  · cases List.mem_singleton.1 hmem
    exact ⟨⟨"Good", [], some (scoreTree 700)⟩, scoreRule 700,
      toOption_eq_some.1 (by decide +kernel), rfl⟩

/-- The gate finds nothing, and yet both rules pass at a score of 720. -/
theorem nested_overlap : Stored decimalPy ["score"] scoreRules ∧
    ¬ GateSound decimalPy (fun _ _ => false) [] (fun _ => "") (fun _ => none) scoreRules
      (loopedSteps.map PolicyStep.dump) := by
  refine ⟨scoreRules_stored, fun hsound => ?_⟩
  have hgate : hardOverlaps decimalPy scoreRules (loopedSteps.map PolicyStep.dump) =
      .ok [] := toOption_eq_some.1 (by decide +kernel)
  have hpass : ∀ row ∈ scoreRules.map Prod.snd,
      passes decimalPy (fun _ _ => false) [] [("score", .int 720)] row = true := by
    decide +kernel
  refine hsound hgate "fair" "good" _ _ ?_ ?_ (by decide) rfl rfl [("score", .int 720)]
    ⟨hpass _ List.mem_cons_self, hpass _ (List.mem_cons_of_mem _ List.mem_cons_self)⟩
  · exact Runs.rule (List.mem_cons_self) rfl
  · have hinner : Runs decimalPy (fun _ => "") (fun _ => none)
        [.dict [("type", .str "rule"), ("ref_id", .str "good")]] "good" :=
      Runs.rule List.mem_cons_self rfl
    exact Runs.nested (List.mem_cons_of_mem _ List.mem_cons_self) (Nested.loop rfl rfl) hinner

end RuleMind.PromotionGate
