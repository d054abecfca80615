/-
  The two forms of a stored rule: the tree, which the server evaluates, and the nodes, which
  `nodes_to_tree` makes a tree of again.
-/
import RuleMind.RuleEvaluation
import RuleMind.SavedRule

namespace RuleMind.SavedRule

open RuleTree

/-! ### The forms of a rule -/

section Forms
variable (py : PyText) (search : RegexSearch)

def verdict (result : Except PyError Value) : Except PyError (Option Value × Option Value) :=
  result.map fun v => (v.field "passed", v.field "outcome")

def evaluateNodes (catalog vars : Dict) (nodes : List Dict) : Except PyError Value := do
  let tree ← nodesToTree py (.list (nodes.map .dict))
  evaluateTree py search catalog vars tree

/-- The tree and the nodes of a rule decide alike, on all variables. -/
def FormsAgree (rule : NormalizedRule) : Prop :=
  ∀ catalog vars, verdict (evaluateTree py search catalog vars rule.tree) =
    verdict (evaluateNodes py search catalog vars rule.nodes)

/-! ### Trees that nodes can say -/

/-- The logic `flatten_tree_to_nodes` reads off a group: one that states none has that of the
    group it is in. -/
def flatLogic (inherited : String) (node : Value) : String :=
  upper (py.str ((node.field "logic").getD (.str (if inherited = "" then "AND" else inherited))))

/-- A condition without a type, whose threshold is read back from its text. -/
structure PlainCondition (node : Value) : Prop where
  untyped : typeName (eitherField node "fieldType" "field_type") = .ok ""
  readsBack : parseRuleValue py (.str (py.str ((node.field "value").getD (.str "")))) =
    conditionExpected py node

/-- The groups have one logic, but for those of one child, which have it among their nodes; a NOT
    stands over a condition with `==` or `!=`. -/
def Plain (L : String) : ℕ → String → Value → Prop
  | 0, _, _ => False
  | levels + 1, inherited, node =>
    match kind node with
    | .condition => PlainCondition py node
    | .not => ∃ kvs, node.field "child" = some (.dict kvs) ∧ kind (.dict kvs) = .condition ∧
        PlainCondition py (.dict kvs) ∧
        (kvs.lookup "operator" = some (.str "==") ∨ kvs.lookup "operator" = some (.str "!="))
    | .group => flatLogic py inherited node = L ∧
        ∃ children, iterate (node.field "children") = .ok children ∧
          (pyLogic py node = L ∨ children.length = 1) ∧ ∀ child ∈ children, Plain L levels L child
    | .other => False

/-- A tree that nodes can say: its groups are joined by AND, or by OR, and it decides on one of
    the outcomes of nodes, and on a reject otherwise. -/
def NodesCanSay (tree : Value) : Prop :=
  (∃ L ∈ ["AND", "OR"], Plain py L RULE_LEVELS (pyLogic py tree) tree) ∧
    isOutcomeName (py.str ((tree.field "onPass").getD (.str "approve"))) = true ∧
    py.str ((tree.field "onFail").getD (.str "reject")) = "reject"

/-- The conditions of a tree, and the NOT of a condition, in its order. -/
def leaves : ℕ → Value → List Value
  | 0, _ => []
  | levels + 1, node =>
    match kind node with
    | .condition | .not => [node]
    | .group =>
      match iterate (node.field "children") with
      | .ok children => children.flatMap (leaves levels)
      | .error _ => []
    | .other => []

def leafHolds (vars : Dict) (leaf : Value) : Except PyError Bool :=
  if kind leaf = .not then
    (conditionPasses py search vars ((leaf.field "child").getD .null)).map (!·)
  else conditionPasses py search vars leaf

def joined (L : String) (bs : List Bool) : Bool := if L = "AND" then bs.all id else bs.any id

end Forms

/-! ### One logic for all leaves -/

section Joined
variable {py : PyText} {search : RegexSearch} {vars : Dict}

theorem joined_flatten (L : String) (bss : List (List Bool)) :
    joined L bss.flatten = joined L (bss.map (joined L)) := by grind [joined]

theorem joined_singleton (L : String) (b : Bool) : joined L [b] = b := by
  unfold joined
  split <;> simp

theorem evaluateAll_fst {eval : Value → Except PyError (Bool × Trace)} {nodes : List Value} :
    (evaluateAll eval nodes).map Prod.fst = nodes.mapM fun node => (eval node).map Prod.fst := by
  induction nodes with
  | nil => rfl
  | cons node nodes ih =>
    rw [evaluateAll, List.mapM_cons, ← ih]
    cases eval node with
    | error e => rfl
    | ok x =>
      show (evaluateAll eval nodes >>= _).map Prod.fst = _
      cases evaluateAll eval nodes with
      | error e => rfl
      | ok y => rfl

variable {variableIds : List String} {L : String}

theorem joined_leaf {h : Value → Except PyError Bool} {leaf : Value} :
    ([leaf].mapM h).map (joined L) = h leaf := by
  rw [List.mapM_cons]
  cases h leaf with
  | error e => rfl
  | ok b => exact congrArg Except.ok (joined_singleton L b)

variable {node : Value}

theorem not_child {kvs : Dict} (hfield : node.field "child" = some (.dict kvs))
    (hkind : kind (.dict kvs) = .condition) :
    Value.orElse (node.field "child") (.dict []) = .dict kvs := by
  grind -ring -linarith [kind_asDict, Value.orElse_of_any]

theorem evaluateNodeOn_condition {leaf : Value → Except PyError Bool} {f : ℕ}
    {i : String} (hkind : kind node = .condition) :
    (evaluateNodeOn py leaf (f + 1) node i).map Prod.fst = leaf node := by
  obtain ⟨kvs, rfl, -⟩ := kind_asDict (by rw [hkind]; simp : kind node ≠ .other)
  rw [evaluateNodeOn]
  simp only [Value.asDict, hkind]
  cases leaf (.dict kvs) with
  | error e => rfl
  | ok b => rfl

theorem evaluateNodeOn_leaves {levels f : ℕ} {inherited i : String}
    (hvalid : validateRuleTree py variableIds levels node = .ok ())
    (h : Plain py L levels inherited node) (hle : levels ≤ f) :
    (evaluateNodeOn py (conditionPasses py search vars) f node i).map Prod.fst =
      ((leaves levels node).mapM (leafHolds py search vars)).map (joined L) := by
  induction levels generalizing f node inherited i with
  | zero => cases h
  | succ levels ih =>
    obtain ⟨f, rfl⟩ : ∃ n, f = n + 1 := ⟨f - 1, by omega⟩
    have hle : levels ≤ f := by omega
    rw [Plain] at h
    rw [leaves]
    cases hkind : kind node with
    | other =>
      rw [hkind] at h
      cases h
    | condition =>
      rw [evaluateNodeOn_condition hkind, joined_leaf, leafHolds, if_neg (by rw [hkind]; simp)]
    | not =>
      rw [hkind] at h
      obtain ⟨kvs, hfield, hcond, -, -⟩ := h
      obtain ⟨node', rfl, -⟩ := kind_asDict (by rw [hkind]; simp : kind node ≠ .other)
      obtain ⟨kvs', hfield', hchild⟩ := validateRuleTree_not hkind hvalid
      obtain ⟨f, rfl⟩ : ∃ n, f = n + 1 := by
        cases levels with
        | zero => cases hchild
        | succ levels => exact ⟨f - 1, by omega⟩
      have hover : ∀ i, (evaluateNodeOn py (conditionPasses py search vars) (f + 1) (.dict kvs)
          i).map Prod.fst = conditionPasses py search vars (.dict kvs) := fun i =>
        evaluateNodeOn_condition hcond
      rw [joined_leaf, leafHolds, if_pos hkind, evaluateNodeOn]
      simp only [Value.asDict, hkind, not_child hfield hcond]
      rw [hfield, Option.getD_some, ← hover "NOT"]
      cases evaluateNodeOn py (conditionPasses py search vars) (f + 1) (.dict kvs) "NOT" with
      | error e => rfl
      | ok x => rfl
    | group =>
      rw [hkind] at h
      obtain ⟨-, children, hiter, hlogic, hplain⟩ := h
      obtain ⟨node', rfl, -⟩ := kind_asDict (by rw [hkind]; simp : kind node ≠ .other)
      obtain ⟨children', hiter', hchildren⟩ := validateRuleTree_group hkind hvalid
      cases hiter.symm.trans hiter'
      have hall : ∀ i, (evaluateAll (fun c => evaluateNodeOn py (conditionPasses py search vars) f c
          i) children).map Prod.fst = (children.mapM fun child =>
            (leaves levels child).mapM (leafHolds py search vars)).map (List.map (joined L)) := by
        intro i
        rw [evaluateAll_fst, ← mapM_map_ok]
        exact mapM_congr fun child hchild => ih (hchildren child hchild).2 (hplain child hchild) hle
      have hjoined : ∀ bs : List Bool, bs.length = children.length →
          (if pyLogic py (.dict node') = "AND" then bs.all id else bs.any id) = joined L bs := by
        intro bs hlen
        rcases hlogic with rfl | hone
        · rfl
        · obtain ⟨b, rfl⟩ := List.length_eq_one_iff.1 (hlen.trans hone)
          rw [joined_singleton]
          split <;> simp
      rw [evaluateNodeOn]
      simp only [Value.asDict, hkind]
      rw [hiter, mapM_flatMap]
      specialize hall (pyLogic py (.dict node'))
      cases hleaves : children.mapM fun child =>
          (leaves levels child).mapM (leafHolds py search vars) with
      | error e =>
        rw [hleaves] at hall
        cases hrun : evaluateAll (fun c => evaluateNodeOn py (conditionPasses py search vars) f c
            (pyLogic py (.dict node'))) children with
        | error e' =>
          rw [hrun] at hall
          cases hall
          show (evaluateAll _ _ >>= _).map Prod.fst = _
          rw [hrun]
          rfl
        | ok x =>
          rw [hrun] at hall
          cases hall
      | ok bss =>
        rw [hleaves] at hall
        obtain ⟨⟨bs, t⟩, hrun, hfst⟩ := map_eq_ok.1 hall
        cases hfst
        have hlen : (bss.map (joined L)).length = children.length := by
          rw [List.length_map]
          exact (mapM_eq_ok.1 hleaves).length_eq.symm
        show (evaluateAll _ _ >>= _).map Prod.fst = .ok (joined L bss.flatten)
        rw [hrun, joined_flatten, ← hjoined _ hlen]
        rfl

end Joined

/-! ### Conditions, written as nodes and read back -/

section Conditions
variable {py : PyText} {search : RegexSearch} {vars : Dict} {node : Value}

/-- A condition with an operator that may be saved. -/
structure Savable (node : Value) : Prop where
  named : (node.field "variable").isSome = true
  compares : ∃ operator ∈ ALLOWED_OPERATORS, node.field "operator" = some (.str operator)

theorem isMember_ok {keys : List String} {v : Value} (h : isMember keys v = .ok true) :
    ∃ s ∈ keys, v = .str s := by
  cases v with
  | str s => exact ⟨s, by simpa [isMember] using h, rfl⟩
  | list vs => cases h
  | dict kvs => cases h
  | _ => simp [isMember] at h

theorem getD_null {o : Option Value} {s : String} (h : o.getD .null = .str s) :
    o = some (.str s) := by
  cases o with
  | none => cases h
  | some v => exact congrArg some h

theorem validateCondition_savable {variableIds : List String}
    (h : validateCondition py variableIds node = .ok ()) : Savable node := by
  rw [validateCondition] at h
  split at h
  · obtain ⟨known, hknown, h₁⟩ := bind_eq_ok.1 h
    obtain ⟨⟨⟩, hrefuse, h₂⟩ := bind_eq_ok.1 h₁
    obtain ⟨allowed, hallowed, h₃⟩ := bind_eq_ok.1 h₂
    obtain ⟨name, -, hname⟩ := isMember_ok (refuseUnless_ok hrefuse ▸ hknown)
    obtain ⟨operator, hmem, hoperator⟩ := isMember_ok (refuseUnless_ok h₃ ▸ hallowed)
    refine ⟨?_, operator, hmem, getD_null hoperator⟩
    rw [getD_null hname]
    rfl
  · cases h

def savedComparisons : List Operator := [.ge, .le, .eq, .gt, .lt, .ne]

theorem ofText_savable : ∀ operator ∈ ALLOWED_OPERATORS,
    Operator.ofText operator ∈ savedComparisons := by decide

variable {actual expected : Value} {kvs : Dict}

theorem compare_savable {op : Operator} (h : op ∈ savedComparisons)
    {expected2 fieldType : Value} (htype : typeName fieldType = .ok "") :
    compare py search actual op expected expected2 fieldType =
      compare py search actual op expected .null .null := by
  have hnull : typeName .null = .ok "" := rfl
  simp only [savedComparisons, List.mem_cons, List.not_mem_nil, or_false] at h
  rcases h with rfl | rfl | rfl | rfl | rfl | rfl <;>
    simp [compare, compareTyped, htype, hnull, compareNumbers, bind, Except.bind, Operator.isOrder]

theorem compare_ne :
    compare py search actual .ne expected .null .null =
      (compare py search actual .eq expected .null .null).map (!·) := by
  simp [compare, compareTyped, typeName, Value.truthy, bind, Except.bind, Operator.isOrder]

def conditionNode (py : PyText) (id node : Value) : Dict :=
  [("id", id), ("type", .str "condition"), ("variable", (node.field "variable").getD .null),
    ("operator", (node.field "operator").getD (.str "==")),
    ("value", .str (py.str ((node.field "value").getD (.str "")))), ("label", .str "Condition")]

theorem conditionOperator_savable (h : Savable node) :
    conditionOperator py node ∈ savedComparisons := by
  obtain ⟨operator, hmem, hoperator⟩ := h.compares
  rw [conditionOperator, hoperator]
  exact ofText_savable operator hmem

theorem flatCondition_conditionNode (id : Value) :
    flatCondition py (.dict (conditionNode py id node)) = .dict [("type", .str "condition"),
      ("id", id), ("variable", (node.field "variable").getD .null),
      ("operator", (node.field "operator").getD (.str "==")),
      ("value", parseRuleValue py (.str (py.str ((node.field "value").getD (.str "")))))] := by
  have hid : (Value.dict (conditionNode py id node)).field "id" = some id := rfl
  have hvariable : (Value.dict (conditionNode py id node)).field "variable" =
      some ((node.field "variable").getD .null) := rfl
  have hoperator : (Value.dict (conditionNode py id node)).field "operator" =
      some ((node.field "operator").getD (.str "==")) := rfl
  have hvalue : (Value.dict (conditionNode py id node)).field "value" =
      some (.str (py.str ((node.field "value").getD (.str "")))) := rfl
  have hvalue2 : (Value.dict (conditionNode py id node)).field "value2" = none := rfl
  have htype : eitherField (.dict (conditionNode py id node)) "fieldType" "field_type" = .null :=
    rfl
  simp only [flatCondition, hid, hvariable, hoperator, hvalue, hvalue2, htype, Option.getD_some,
    Option.getD_none, Value.isNull, if_true, List.append_nil]

theorem conditionPasses_readBack (hsavable : Savable node) (hplain : PlainCondition py node)
    (id : Value) :
    conditionPasses py search vars (flatCondition py (.dict (conditionNode py id node))) =
      conditionPasses py search vars node := by
  have hallowed : conditionOperator py node ∈ savedComparisons := conditionOperator_savable hsavable
  obtain ⟨name, hname⟩ := Option.isSome_iff_exists.1 hsavable.named
  rw [flatCondition_conditionNode, hname, Option.getD_some]
  generalize hread : parseRuleValue py (.str (py.str ((node.field "value").getD (.str "")))) = read
  generalize hentry : Value.dict [("type", .str "condition"), ("id", id), ("variable", name),
    ("operator", (node.field "operator").getD (.str "==")), ("value", read)] = entry
  have hvariable : conditionVariable py entry = conditionVariable py node := by
    rw [conditionVariable, conditionVariable, hname, ← hentry]
    rfl
  have hoperator : conditionOperator py entry = conditionOperator py node := by
    rw [conditionOperator, conditionOperator, ← hentry]
    rfl
  have hexpected : conditionExpected py entry = conditionExpected py node := by
    have hidem : parseRuleValue py read = read := by rw [← hread, parseRuleValue_idem]
    rw [← hplain.readsBack, hread, conditionExpected, ← hentry]
    exact hidem
  have htype : typeName (eitherField entry "fieldType" "field_type") = .ok "" := by
    rw [← hentry]
    rfl
  rw [conditionPasses, conditionPasses, hvariable, hoperator, hexpected,
    compare_savable hallowed htype, compare_savable hallowed hplain.untyped]

/-- A condition with its operator turned over, as `flatten_tree_to_nodes` does under a NOT. -/
def turned (kvs : Dict) : Dict :=
  setKey kvs "operator" (.str (if kvs.lookup "operator" = some (.str "!=") then "==" else "!="))

theorem turned_field {key : String} (h : key ≠ "operator") :
    (Value.dict (turned kvs)).field key = (Value.dict kvs).field key := by
  show (turned kvs).lookup key = kvs.lookup key
  rw [turned, lookup_setKey, if_neg h]

theorem turned_operator :
    (Value.dict (turned kvs)).field "operator" =
      some (.str (if kvs.lookup "operator" = some (.str "!=") then "==" else "!=")) := by
  show (turned kvs).lookup "operator" = _
  rw [turned, lookup_setKey, if_pos rfl]

theorem Savable.turned {kvs : Dict} (h : Savable (.dict kvs)) : Savable (.dict (turned kvs)) := by
  refine ⟨?_, _, ?_, turned_operator⟩
  · rw [turned_field (by decide)]
    exact h.named
  · split
    · decide
    · decide

theorem PlainCondition.turned {kvs : Dict} (h : PlainCondition py (.dict kvs)) :
    PlainCondition py (.dict (turned kvs)) := by
  have hfield : ∀ key ∈ ["fieldType", "field_type", "value"],
      (Value.dict (SavedRule.turned kvs)).field key = (Value.dict kvs).field key := fun key hkey =>
    turned_field (by rintro rfl; exact absurd hkey (by decide))
  refine ⟨?_, ?_⟩
  · rw [eitherField, hfield "fieldType" (by decide), hfield "field_type" (by decide)]
    exact h.untyped
  · rw [conditionExpected, hfield "value" (by decide)]
    exact h.readsBack

theorem conditionPasses_turned (hplain : PlainCondition py (.dict kvs))
    (hoperator : kvs.lookup "operator" = some (.str "==") ∨
      kvs.lookup "operator" = some (.str "!=")) :
    conditionPasses py search vars (.dict (turned kvs)) =
      (conditionPasses py search vars (.dict kvs)).map (!·) := by
  have hvariable :
      conditionVariable py (.dict (turned kvs)) = conditionVariable py (.dict kvs) := by
    rw [conditionVariable, turned_field (by decide), conditionVariable]
  have hexpected :
      conditionExpected py (.dict (turned kvs)) = conditionExpected py (.dict kvs) := by
    rw [conditionExpected, turned_field (by decide), conditionExpected]
  rw [conditionPasses, conditionPasses, hvariable, hexpected]
  rcases hoperator with h | h
  · have hop : conditionOperator py (.dict kvs) = .eq := by
      rw [conditionOperator, show (Value.dict kvs).field "operator" = _ from h]
      rfl
    have hturned : conditionOperator py (.dict (turned kvs)) = .ne := by
      rw [conditionOperator, turned_operator, h]
      rfl
    rw [hop, hturned, compare_savable (by decide) hplain.turned.untyped,
      compare_savable (by decide) hplain.untyped, compare_ne]
  · have hop : conditionOperator py (.dict kvs) = .ne := by
      rw [conditionOperator, show (Value.dict kvs).field "operator" = _ from h]
      rfl
    have hturned : conditionOperator py (.dict (turned kvs)) = .eq := by
      rw [conditionOperator, turned_operator, h]
      rfl
    rw [hop, hturned, compare_savable (by decide) hplain.turned.untyped,
      compare_savable (by decide) hplain.untyped, compare_ne]
    cases compare py search _ .eq _ .null .null with
    | error e => rfl
    | ok b => exact congrArg Except.ok (Bool.not_not b).symm

end Conditions

/-! ### The nodes of a tree, read back -/

section ReadBack
variable {py : PyText} {search : RegexSearch} {L : String} {s : FlatNodes} {ls : List Value}

/-- A condition of the tree of the nodes compares as a leaf of the tree does. -/
def Stands (py : PyText) (search : RegexSearch) (leaf cond : Value) : Prop :=
  kind cond = .condition ∧
    ∀ vars, conditionPasses py search vars cond = leafHolds py search vars leaf

def logicNode (id logic : String) : Dict :=
  [("id", .str id), ("type", .str (lower logic)), ("label", .str logic)]

def EndsInCondition (s : FlatNodes) : Prop :=
  ∃ node, s.nodes.getLast? = some node ∧ node.lookup "type" = some (.str "condition")

/-- What the nodes of leaves joined by one logic read back as. -/
structure Reads (py : PyText) (search : RegexSearch) (L : String) (s : FlatNodes)
    (ls : List Value) : Prop where
  conds : ∃ conds, (s.nodes.map Value.dict).foldlM (addNode py) ⟨"AND", "approve", []⟩ =
      .ok ⟨if conds.length ≤ 1 then "AND" else L, "approve", conds⟩ ∧
    List.Forall₂ (Stands py search) ls conds
  last : (s.nodes = [] ∧ ls = []) ∨ (ls ≠ [] ∧ EndsInCondition s)

theorem joinWith_first (h : s.nodes = []) (logic : String) : joinWith s logic = s := by
  rw [joinWith, h]
  rfl

theorem joinWith_next (h : EndsInCondition s) (logic : String) :
    ∃ name, (joinWith s logic).nodes = s.nodes ++ [logicNode name logic] := by
  obtain ⟨node, hlast, htype⟩ := h
  refine ⟨(s.nextId "logic").1, ?_⟩
  rw [joinWith, hlast]
  dsimp only
  rw [if_pos htype]
  rfl

theorem addCondition_nodes (s : FlatNodes) (node : Value) (logic : String) :
    ∃ id, (addCondition py s node logic).nodes =
      (joinWith s logic).nodes ++ [conditionNode py id node] := by
  rw [addCondition]
  cases (node.field "id").filter Value.truthy with
  | none => exact ⟨_, rfl⟩
  | some id => exact ⟨id, rfl⟩

theorem addCondition_ends (s : FlatNodes) (node : Value) (logic : String) :
    EndsInCondition (addCondition py s node logic) := by
  obtain ⟨id, hnodes⟩ := @addCondition_nodes py s node logic
  exact ⟨conditionNode py id node, by rw [hnodes, List.getLast?_concat], rfl⟩

theorem addNode_logic (t : FlatTree) (id : String) (hL : L ∈ ["AND", "OR"]) :
    addNode py t (.dict (logicNode id L)) = .ok { t with logic := L } := by
  simp only [List.mem_cons, List.not_mem_nil, or_false] at hL
  rcases hL with rfl | rfl
  · rfl
  · rfl

theorem Reads.add {node leaf : Value} {logic : String} (h : Reads py search L s ls)
    (hL : L ∈ ["AND", "OR"]) (hlogic : logic = L ∨ s.nodes = [])
    (hstands : ∀ id, Stands py search leaf (flatCondition py (.dict (conditionNode py id node)))) :
    Reads py search L (addCondition py s node logic) (ls ++ [leaf]) := by
  obtain ⟨⟨conds, hread, hall⟩, hlast⟩ := h
  obtain ⟨id, hnodes⟩ := @addCondition_nodes py s node logic
  have hall' : List.Forall₂ (Stands py search) (ls ++ [leaf])
      (conds ++ [flatCondition py (Value.dict (conditionNode py id node))]) :=
    List.rel_append hall (.cons (hstands id) .nil)
  refine ⟨⟨_, ?_, hall'⟩, .inr ⟨by simp, addCondition_ends s node logic⟩⟩
  rcases hlast with ⟨hnone, rfl⟩ | ⟨hsome, hends⟩
  · cases hall
    rw [hnodes, joinWith_first hnone, hnone]
    rfl
  · have hlen : 1 ≤ conds.length := by
      rw [← hall.length_eq]
      exact List.length_pos_iff.2 hsome
    obtain ⟨name, hjoin⟩ := joinWith_next hends logic
    have hlogic : logic = L := by
      rcases hlogic with hlogic | hnone
      · exact hlogic
      · obtain ⟨node, hnode, -⟩ := hends
        rw [hnone] at hnode
        cases hnode
    subst hlogic
    rw [hnodes, hjoin, List.map_append, List.map_append, List.foldlM_append, List.foldlM_append,
      hread]
    have hmore : ¬ (conds ++ [flatCondition py (Value.dict (conditionNode py id node))]).length ≤ 1 := by
      rw [List.length_append, List.length_singleton]
      omega
    show (addNode py _ (.dict (logicNode name logic)) >>= fun t => _) >>= _ = _
    rw [addNode_logic _ name hL, if_neg hmore]
    rfl

theorem condition_type {kvs : Dict} (h : kind (.dict kvs) = .condition) :
    kvs.lookup "type" = some (.str "condition") := by
  have htype : nodeType (.dict kvs) = some "condition" := by
    by_contra hne
    rw [kind, if_neg hne] at h
    split at h
    · cases h
    · split at h
      · cases h
      · cases h
  obtain ⟨v, hv, hstr⟩ := Option.bind_eq_some_iff.1 htype
  cases v with
  | str s =>
    cases hstr
    exact hv
  | _ => cases hstr

variable {node : Value}

theorem stands_condition (hkind : kind node = .condition) (hsavable : Savable node)
    (hplain : PlainCondition py node) (id : Value) :
    Stands py search node (flatCondition py (.dict (conditionNode py id node))) := by
  refine ⟨?_, fun vars => ?_⟩
  · rw [flatCondition_conditionNode]
    rfl
  · rw [conditionPasses_readBack hsavable hplain, leafHolds, if_neg (by rw [hkind]; simp)]

theorem stands_not {kvs : Dict} (hkind : kind node = .not)
    (hfield : node.field "child" = some (.dict kvs)) (hsavable : Savable (.dict kvs))
    (hplain : PlainCondition py (.dict kvs))
    (hoperator : kvs.lookup "operator" = some (.str "==") ∨
      kvs.lookup "operator" = some (.str "!=")) (id : Value) :
    Stands py search node
      (flatCondition py (.dict (conditionNode py id (.dict (turned kvs))))) := by
  refine ⟨?_, fun vars => ?_⟩
  · rw [flatCondition_conditionNode]
    rfl
  · rw [conditionPasses_readBack hsavable.turned hplain.turned, conditionPasses_turned hplain
      hoperator, leafHolds, if_pos hkind, hfield]
    rfl

theorem foldlM_reads {f : FlatNodes → Value → Except PyError FlatNodes} {g : Value → List Value}
    {children : List Value} {t : FlatNodes}
    (h : ∀ child ∈ children, ∀ s ls t, Reads py search L s ls → f s child = .ok t →
      Reads py search L t (ls ++ g child))
    (hs : Reads py search L s ls) (hf : children.foldlM f s = .ok t) :
    Reads py search L t (ls ++ children.flatMap g) := by
  induction children generalizing s ls with
  | nil =>
    cases hf
    simpa using hs
  | cons child children ih =>
    rw [List.foldlM_cons] at hf
    obtain ⟨u, hu, hf⟩ := bind_eq_ok.1 hf
    rw [List.flatMap_cons, ← List.append_assoc]
    exact ih (fun c hc => h c (List.mem_cons_of_mem _ hc)) (h child List.mem_cons_self s ls u hs hu)
      hf

/-- **The nodes of a tree of one logic** read back as its leaves. -/
theorem flattenWalk_reads {variableIds : List String} {levels frames : ℕ}
    {inherited : String} {t : FlatNodes} (hL : L ∈ ["AND", "OR"])
    (hvalid : validateRuleTree py variableIds levels node = .ok ())
    (h : Plain py L levels inherited node) (hs : Reads py search L s ls)
    (hin : inherited = L ∨ s.nodes = [])
    (hwalk : flattenWalk py frames s node inherited = .ok t) :
    Reads py search L t (ls ++ leaves levels node) := by
  induction levels generalizing frames node inherited s ls t with
  | zero => cases h
  | succ levels ih =>
    cases frames with
    | zero => cases hwalk
    | succ frames =>
      rw [Plain] at h
      rw [leaves]
      cases hkind : kind node with
      | other =>
        rw [hkind] at h
        cases h
      | condition =>
        rw [hkind] at h
        obtain ⟨kvs, rfl, -⟩ := kind_asDict (by rw [hkind]; simp : kind node ≠ .other)
        rw [flattenWalk_condition hkind] at hwalk
        cases hwalk
        rw [validateRuleTree, hkind] at hvalid
        exact hs.add hL hin (stands_condition hkind (validateCondition_savable hvalid) h)
      | not =>
        rw [hkind] at h
        obtain ⟨kvs, hfield, hcond, hplain, hoperator⟩ := h
        obtain ⟨node', rfl, -⟩ := kind_asDict (by rw [hkind]; simp : kind node ≠ .other)
        obtain ⟨kvs', hfield', hchild⟩ := validateRuleTree_not hkind hvalid
        cases hfield.symm.trans hfield'
        rw [flattenWalk, hkind] at hwalk
        obtain ⟨child, hnegated, hwalk⟩ := bind_eq_ok.1 hwalk
        rw [negatedChild_dict (not_child hfield hcond), if_pos (condition_type hcond)] at hnegated
        cases hnegated
        cases frames with
        | zero => cases hwalk
        | succ frames =>
          rw [flattenWalk_condition (condition_setKey (condition_type hcond))] at hwalk
          cases hwalk
          have hsavable : Savable (.dict kvs) := by
            cases levels with
            | zero => cases hchild
            | succ levels => grind [validateRuleTree, validateCondition_savable]
          exact hs.add hL hin (stands_not hkind hfield hsavable hplain hoperator)
      | group =>
        rw [hkind] at h
        obtain ⟨hflat, children, hiter, -, hplain⟩ := h
        obtain ⟨node', rfl, -⟩ := kind_asDict (by rw [hkind]; simp : kind node ≠ .other)
        obtain ⟨children', hiter', hchildren⟩ := validateRuleTree_group hkind hvalid
        cases hiter.symm.trans hiter'
        rw [flattenWalk, hkind] at hwalk
        obtain ⟨children', hiter', hwalk⟩ := bind_eq_ok.1 hwalk
        cases hiter.symm.trans hiter'
        rw [show upper _ = L from hflat] at hwalk
        simp only [hiter]
        exact foldlM_reads (fun child hchild s ls t hs hwalk =>
          ih (hchildren child hchild).2 (hplain child hchild) hs (.inl rfl) hwalk) hs hwalk

end ReadBack

/-! ### The forms agree -/

section Agreement
variable {py : PyText} {search : RegexSearch} {variableIds : List String} {L : String}
  {catalog vars : Dict} {ls : List Value}

variable {kvs : Dict} {levels : ℕ} {node : Value} {t : FlatTree}

theorem verdict_evaluateTree :
    verdict (evaluateTree py search catalog vars (.dict kvs)) =
      ((evaluateNodeOn py (conditionPasses py search vars) (MAX_RULE_TREE_DEPTH + 1) (.dict kvs)
        (pyLogic py (.dict kvs))).map Prod.fst).map fun b =>
          (some (.bool b), some (.str (decidedOutcome py (.dict kvs) b))) := by
  rw [evaluateTree]
  simp only [Value.asDict]
  cases evaluateNodeOn py (conditionPasses py search vars) (MAX_RULE_TREE_DEPTH + 1) (.dict kvs)
      (pyLogic py (.dict kvs)) with
  | error e => rfl
  | ok x => rfl

theorem group_children_ne_nil {children : List Value} (hkind : kind node = .group)
    (hvalid : validateRuleTree py variableIds (levels + 1) node = .ok ())
    (hiter : iterate (node.field "children") = .ok children) : children ≠ [] := by
  rw [validateRuleTree, hkind] at hvalid
  obtain ⟨⟨⟩, -, h₁⟩ := bind_eq_ok.1 hvalid
  obtain ⟨found, hfound, h₂⟩ := bind_eq_ok.1 h₁
  obtain ⟨⟨⟩, hsome, -⟩ := bind_eq_ok.1 h₂
  rintro rfl
  have hnone : found = [] := by
    unfold items at hfound
    split at hfound
    · exact (Except.ok.inj hfound).symm
    · rename_i v hv
      rw [← (Option.filter_eq_some_iff.1 hv).1] at hfound
      exact Except.ok.inj ((ofPy_eq_ok.1 hfound).symm.trans hiter)
  rw [hnone] at hsome
  cases hsome

theorem leaves_ne_nil
    (hvalid : validateRuleTree py variableIds levels node = .ok ()) : leaves levels node ≠ [] := by
  induction levels generalizing node with
  | zero => cases hvalid
  | succ levels ih =>
    rw [leaves]
    cases hkind : kind node with
    | other =>
      rw [validateRuleTree, hkind] at hvalid
      cases hvalid
    | condition => simp
    | not => simp
    | group =>
      obtain ⟨children, hiter, hchildren⟩ := validateRuleTree_group hkind hvalid
      simp only [hiter]
      obtain ⟨child, rest, rfl⟩ := List.exists_cons_of_ne_nil
        (group_children_ne_nil hkind hvalid hiter)
      simp_all

theorem flatTree_holds {ls : List Value} (hlogic : t.logic ∈ ["AND", "OR"])
    (hall : List.Forall₂ (Stands py search) ls t.children) {f : ℕ} {i : String} :
    (evaluateNodeOn py (conditionPasses py search vars) (f + 2) t.tree i).map Prod.fst =
      (ls.mapM (leafHolds py search vars)).map (joined t.logic) := by
  have hupper : pyLogic py t.tree = t.logic := by
    show upper t.logic = t.logic
    simp only [List.mem_cons, List.not_mem_nil, or_false] at hlogic
    rcases hlogic with h | h
    · rw [h]
      rfl
    · rw [h]
      rfl
  have hchildren : (evaluateAll (fun c => evaluateNodeOn py (conditionPasses py search vars) (f + 1)
      c t.logic) t.children).map Prod.fst = ls.mapM (leafHolds py search vars) := by
    rw [evaluateAll_fst]
    refine mapM_forall₂ (hall.imp fun leaf cond hstands => ?_)
    rw [evaluateNodeOn_condition hstands.1, hstands.2]
  rw [evaluateNodeOn, hupper, ← hchildren]
  show (evaluateAll (fun c => evaluateNodeOn py (conditionPasses py search vars) (f + 1) c t.logic)
    t.children >>= _).map Prod.fst = _
  cases evaluateAll (fun c => evaluateNodeOn py (conditionPasses py search vars) (f + 1) c t.logic)
      t.children with
  | error e => rfl
  | ok x => rfl

theorem addOutcome_reads {s : FlatNodes} {onPass : String} (houtcome : isOutcomeName onPass = true)
    (hs : Reads py search L s ls) :
    ∃ t : FlatTree, nodesToTree py (.list ((addOutcome s onPass).nodes.map .dict)) = .ok t.tree ∧
      t.outcome = onPass ∧ t.logic = (if t.children.length ≤ 1 then "AND" else L) ∧
      List.Forall₂ (Stands py search) ls t.children := by
  obtain ⟨⟨conds, hread, hall⟩, -⟩ := hs
  refine ⟨⟨if conds.length ≤ 1 then "AND" else L, onPass, conds⟩, ?_, rfl, rfl, hall⟩
  have hadd : ∀ t : FlatTree, addNode py t (.dict [("id", .str (s.nextId "outcome").1),
      ("type", .str onPass), ("label", .str onPass.capitalize)]) =
        .ok { t with outcome := onPass } := by
    intro t
    simp only [isOutcomeName, decide_eq_true_eq, List.mem_cons, List.not_mem_nil, or_false]
      at houtcome
    rcases houtcome with rfl | rfl | rfl
    · rfl
    · rfl
    · rfl
  have hnodes : (addOutcome s onPass).nodes = s.nodes ++ [[("id", Value.str (s.nextId "outcome").1),
      ("type", Value.str onPass), ("label", Value.str onPass.capitalize)]] := by
    rw [addOutcome, if_pos houtcome]
    rfl
  have htruthy : (Value.list ((addOutcome s onPass).nodes.map .dict)).truthy = true := by
    rw [hnodes, List.map_append]
    simp [Value.truthy]
  rw [nodesToTree, if_pos htruthy]
  show (((addOutcome s onPass).nodes.map Value.dict).foldlM (addNode py) _).map FlatTree.tree = _
  rw [hnodes, List.map_append, List.foldlM_append, hread]
  show ((addNode py _ _ >>= fun t => _) : Except PyError FlatTree).map FlatTree.tree = _
  rw [hadd]
  rfl

theorem nodesToTree_flatten {kvs : Dict} {nodes : List Dict} {frames : ℕ}
    (hvalid : validateRuleTree py variableIds RULE_LEVELS (.dict kvs) = .ok ())
    (hL : L ∈ ["AND", "OR"]) (hplain : Plain py L RULE_LEVELS (pyLogic py (.dict kvs)) (.dict kvs))
    (houtcome : isOutcomeName (py.str (((Value.dict kvs).field "onPass").getD
      (.str "approve"))) = true)
    (hnodes : flattenTreeToNodes py frames (.dict kvs) = .ok nodes) :
    ∃ t : FlatTree, nodesToTree py (.list (nodes.map .dict)) = .ok t.tree ∧
      t.outcome = py.str (((Value.dict kvs).field "onPass").getD (.str "approve")) ∧
      t.logic = (if t.children.length ≤ 1 then "AND" else L) ∧
      List.Forall₂ (Stands py search) (leaves RULE_LEVELS (.dict kvs)) t.children := by
  have htruthy : (Value.dict kvs).truthy = true := by
    cases kvs with
    | nil => cases hvalid
    | cons kv kvs => rfl
  rw [flattenTreeToNodes, if_pos htruthy] at hnodes
  obtain ⟨s, hwalk, hnodes⟩ := bind_eq_ok.1 hnodes
  cases hnodes
  have hstart : Reads py search L ⟨[], 1⟩ [] := ⟨⟨[], rfl, .nil⟩, .inl ⟨rfl, rfl⟩⟩
  exact addOutcome_reads houtcome (flattenWalk_reads hL hvalid hplain hstart (.inr rfl) hwalk)

theorem verdict_readBack (hvalid : validateRuleTree py variableIds RULE_LEVELS (.dict kvs) = .ok ())
    (hL : L ∈ ["AND", "OR"]) (hplain : Plain py L RULE_LEVELS (pyLogic py (.dict kvs)) (.dict kvs))
    (hfail : py.str (((Value.dict kvs).field "onFail").getD (.str "reject")) = "reject")
    (houtcome : t.outcome = py.str (((Value.dict kvs).field "onPass").getD (.str "approve")))
    (hlogic : t.logic = (if t.children.length ≤ 1 then "AND" else L))
    (hall : List.Forall₂ (Stands py search) (leaves RULE_LEVELS (.dict kvs)) t.children) :
    verdict (evaluateTree py search catalog vars (.dict kvs)) =
      verdict (evaluateTree py search catalog vars t.tree) := by
  have hmem : t.logic ∈ ["AND", "OR"] := by
    rw [hlogic]
    split
    · exact List.mem_cons_self
    · exact hL
  have hdecided : ∀ b, decidedOutcome py (.dict kvs) b = decidedOutcome py t.tree b := by
    intro b
    cases b with
    | true => exact houtcome.symm
    | false => exact hfail
  -- A group of one condition is read as AND, which joins it as any logic does.
  have hjoined : ∀ bs : List Bool, (leaves RULE_LEVELS (.dict kvs)).mapM
      (leafHolds py search vars) = .ok bs → joined L bs = joined t.logic bs := by
    intro bs hbs
    have hlen : bs.length = t.children.length :=
      (mapM_eq_ok.1 hbs).length_eq.symm.trans hall.length_eq
    by_cases hone : t.children.length ≤ 1
    · have hpos := List.length_pos_iff.2 (leaves_ne_nil hvalid)
      rw [hall.length_eq] at hpos
      obtain ⟨b, rfl⟩ := List.length_eq_one_iff.1 (show bs.length = 1 by omega)
      rw [joined_singleton, joined_singleton]
    · rw [hlogic, if_neg hone]
  have hholds : (evaluateNodeOn py (conditionPasses py search vars) (MAX_RULE_TREE_DEPTH + 1)
      (.dict kvs) (pyLogic py (.dict kvs))).map Prod.fst =
        (evaluateNodeOn py (conditionPasses py search vars) (MAX_RULE_TREE_DEPTH + 1) t.tree
          (pyLogic py t.tree)).map Prod.fst := by
    have hflat : (evaluateNodeOn py (conditionPasses py search vars) (MAX_RULE_TREE_DEPTH + 1)
        t.tree (pyLogic py t.tree)).map Prod.fst = _ := flatTree_holds (f := 199) hmem hall
    rw [evaluateNodeOn_leaves hvalid hplain (by decide), hflat]
    cases hbs : (leaves RULE_LEVELS (.dict kvs)).mapM (leafHolds py search vars) with
    | error e => rfl
    | ok bs => exact congrArg Except.ok (hjoined bs hbs)
  grind [verdict_evaluateTree, FlatTree.tree]

/-- **The forms of a rule agree** if it was sent as nodes alone, or as a tree alone that nodes can
    say. -/
theorem forms_agree (search : RegexSearch) {request : RuleUpsertRequest} {rule : NormalizedRule}
    (h : normalizeRulePayload py variableIds request = .ok rule)
    (hform : request.tree.filter (!·.isEmpty) = none ∨
      (request.nodes = [] ∧ ∀ kvs, request.tree = some kvs → NodesCanSay py (.dict kvs))) :
    FormsAgree py search rule := by
  intro catalog vars
  rw [normalizeRulePayload] at h
  cases htree : request.tree.filter (!·.isEmpty) with
  | none =>
    rw [htree] at h
    obtain ⟨⟨⟩, -, h⟩ := bind_eq_ok.1 h
    obtain ⟨tree, hnodes, h⟩ := bind_eq_ok.1 h
    cases h
    rw [evaluateNodes, ofPy_eq_ok.1 hnodes]
    rfl
  | some kvs =>
    rw [htree] at h hform
    obtain ⟨⟨⟩, hvalid, h⟩ := bind_eq_ok.1 h
    obtain ⟨nodes, hnodes, h⟩ := bind_eq_ok.1 h
    cases h
    rcases hform with hform | ⟨hnone, hform⟩
    · cases hform
    · obtain ⟨⟨L, hL, hplain⟩, hpass, hfail⟩ := hform kvs (Option.filter_eq_some_iff.1 htree).1
      rw [hnone] at hnodes
      obtain ⟨t, hread, houtcome, hlogic, hall⟩ := @nodesToTree_flatten py search variableIds L kvs
        nodes RULE_LEVELS hvalid hL hplain hpass (ofPy_eq_ok.1 hnodes)
      rw [evaluateNodes, hread]
      exact verdict_readBack hvalid hL hplain hfail houtcome hlogic hall

def savedCondition (name operator : String) (value : Value) : Value :=
  .dict [("type", .str "condition"), ("variable", .str name), ("operator", .str operator),
    ("value", value)]

def savedGroup (logic : String) (children : List Value) : Dict :=
  [("type", .str "group"), ("logic", .str logic), ("children", .list children),
    ("onPass", .str "approve"), ("onFail", .str "reject")]

/-- A bracket that the nodes do not need, and a NOT that they say. -/
def flatRequest : RuleUpsertRequest :=
  ⟨"Flat", [], some (savedGroup "OR" [savedCondition "score" ">=" (.int 700),
    .dict (savedGroup "OR" [.dict [("type", .str "not"),
        ("child", savedCondition "state" "==" (.str "new"))],
      savedCondition "income" ">" (.int 1000)])])⟩

theorem flat_canSay : NodesCanSay asciiText (.dict (flatRequest.tree.getD [])) := by
  have hscore : PlainCondition asciiText (savedCondition "score" ">=" (.int 700)) :=
    ⟨rfl, by decide⟩
  have hincome : PlainCondition asciiText (savedCondition "income" ">" (.int 1000)) :=
    ⟨rfl, by decide⟩
  have hstate : PlainCondition asciiText (savedCondition "state" "==" (.str "new")) :=
    ⟨rfl, by decide⟩
  refine ⟨⟨"OR", by decide, ?_⟩, by decide, by decide⟩
  refine ⟨by decide, _, rfl, .inl (by decide), List.forall_mem_cons.2
    ⟨hscore, List.forall_mem_singleton.2 ⟨by decide, _, rfl, .inl (by decide), ?_⟩⟩⟩
  exact List.forall_mem_cons.2
    ⟨⟨_, rfl, by decide, hstate, .inl rfl⟩, List.forall_mem_singleton.2 hincome⟩

theorem flat_forms_agree : ∃ rule, normalizeRulePayload asciiText ["score", "income", "state"]
    flatRequest = .ok rule ∧ FormsAgree asciiText (fun _ _ => false) rule := by
  obtain ⟨rule, h⟩ : ∃ rule, normalizeRulePayload asciiText ["score", "income", "state"]
      flatRequest = .ok rule := ⟨_, rfl⟩
  exact ⟨rule, h, forms_agree _ h (.inr ⟨rfl, fun kvs hkvs => by cases hkvs; exact flat_canSay⟩)⟩

def nestedRequest : RuleUpsertRequest :=
  ⟨"Nested", [], some (savedGroup "OR" [savedCondition "score" ">=" (.int 700),
    .dict (savedGroup "AND" [savedCondition "income" ">=" (.int 1000),
      savedCondition "age" ">=" (.int 21)])])⟩

theorem nested_forms_differ : ∃ rule, normalizeRulePayload asciiText ["score", "income", "age"]
    nestedRequest = .ok rule ∧ ¬ FormsAgree asciiText (fun _ _ => false) rule := by
  refine ⟨_, rfl, fun h => ?_⟩
  have hvars := h [] [("score", .int 800), ("income", .int 0)]
  revert hvars
  decide +kernel

end Agreement

end RuleMind.SavedRule
