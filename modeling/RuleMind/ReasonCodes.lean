/-
  The reasons of a declined application: `adverse_reason_codes` of `app/logic.py`, on the rule
  results of a decision.
-/
import Mathlib.Data.List.Sort
import RuleMind.RuleEvaluation
import RuleMind.Scorecard
import RuleMind.Lib.Firsts

namespace RuleMind.Reasons

open Text (F64)
open RuleTree

/-! ### Texts -/

/-- `_OPERATOR_PHRASE`. -/
def OPERATOR_PHRASE : List (String × String) :=
  [(">=", "below the required minimum"), ("<=", "above the allowed maximum"),
    (">", "below the required minimum"), ("<", "above the allowed maximum"),
    ("==", "did not match the required value"), ("!=", "matched a disallowed value"),
    ("between", "outside the required range"), ("in", "not in the accepted set"),
    ("not_in", "in the disallowed set"), ("regex", "did not match the required pattern"),
    ("exists", "was missing"), ("!exists", "was present when it must be absent")]

def opTokens : List (String × String) :=
  [(">=", "LT"), (">", "LT"), ("<=", "GT"), ("<", "GT"), ("==", "NE"), ("!=", "EQ"),
    ("between", "RANGE"), ("in", "NOTIN"), ("not_in", "IN"), ("regex", "NOMATCH"),
    ("exists", "MISSING"), ("!exists", "PRESENT")]

def slugChar (c : Char) : Bool := c.isLower || c.isDigit || c == '_'

/-- `re.sub(r"[^a-z0-9_]+", "_", …)`; the flag tells whether a run has begun. -/
def subRuns : Bool → List Char → List Char
  | _, [] => []
  | inRun, c :: cs =>
    if slugChar c then c :: subRuns false cs
    else if inRun then subRuns true cs else '_' :: subRuns true cs

def slugify (value : String) : String :=
  String.ofList (Text.trimBy (· == '_') (subRuns false (lower (String.ofList
    (pyStrip value.toList))).toList))

def reasonCodeSlug (variableId operator : String) : String :=
  let base := String.ofList ((upper (slugify variableId)).toList.map fun c =>
    if c == '_' then '-' else c)
  "RC-" ++ (if base = "" then "CONDITION" else base) ++ "-" ++
    (opTokens.lookup operator).getD "FAIL"

/-- An object that reads as a condition that failed. -/
def isFailure (kvs : Dict) : Bool :=
  (kvs.lookup "passed").any (fun v => !v.truthy) && (kvs.lookup "operator").isSome &&
    ((kvs.lookup "variable_id").isSome || (kvs.lookup "variable_name").isSome)

mutual

def collect : Value → List Value
  | .dict kvs => (if isFailure kvs then [.dict kvs] else []) ++ collectFields kvs
  | .list vs => collectAll vs
  | _ => []

def collectAll : List Value → List Value
  | [] => []
  | v :: vs => collect v ++ collectAll vs

def collectFields : List (String × Value) → List Value
  | [] => []
  | (_, v) :: kvs => collect v ++ collectFields kvs

end

/-! ### The reasons -/

section Codes
variable (py : PyText)

def getNull (entry : Value) (key : String) : Value := (entry.field key).getD .null

/-- `abs`. -/
def absF64 : F64 → F64
  | .finite q => .finite |q|
  | .infinite _ => .infinite false
  | .nan => .nan

def miss (cond : Value) : Except PyError F64 := do
  let actual ← coerceNumber py (getNull cond "value")
  let threshold ← coerceNumber py (getNull cond "threshold")
  match actual, threshold with
  | some a, some t => .ok (F64.divPos (absF64 (F64.ofRat (a - t))) (if t = 0 then 1 else |t|))
  | _, _ => .ok (.finite (-1))

def reasonKey (cond : Value) : String × String :=
  (py.str (Value.orElse (cond.field "variable_id") (getNull cond "variable_name")),
    py.str (getNull cond "operator"))

/-- The entry of `codes`. -/
def reasonOf (cond : Value) : Value :=
  let operator := py.str ((cond.field "operator").getD (.str "=="))
  let name := Value.orElse (cond.field "variable_name")
    (Value.orElse (cond.field "variable_id") (.str "condition"))
  .dict [("code", .str (reasonCodeSlug (py.str (Value.orElse (cond.field "variable_id") name))
      operator)),
    ("variable_id", getNull cond "variable_id"), ("variable_name", name),
    ("operator", .str operator), ("threshold", getNull cond "threshold"),
    ("value", getNull cond "value"),
    ("reason", .str (py.str name ++ " " ++
      (OPERATOR_PHRASE.lookup operator).getD "failed the check" ++ " (required " ++
      py.str (getNull cond "threshold") ++ ", actual " ++ py.str (getNull cond "value") ++ ")."))]

/-- `unique.sort(key=_miss, reverse=True)`: of equal misses the first stays first. -/
def ranked (missed : List (Value × F64)) : List Value :=
  (missed.insertionSort fun a b => F64.le b.2 a.2 = true).map Prod.fst

def adverseReasonCodes (ruleResults : Value) (limit : ℤ) : Except PyError (List Value) := do
  let unique := Lib.firsts (reasonKey py) [] (collect ruleResults)
  let missed ← unique.mapM fun cond => (miss py cond).map fun m => (cond, m)
  .ok (((ranked missed).take limit.toNat).map (reasonOf py))

end Codes

section Results
variable (py : PyText) (search : RegexSearch) (catalog vars : Dict)

/-- `{"rule_id": ref_id, **result, "ruleId": ref_id}`. -/
def ruleResult (refId : String) (result : Value) : Value :=
  .dict ([("rule_id", Value.str refId)] ++ (result.asDict.getD []) ++ [("ruleId", Value.str refId)])

/-- The results a decision records of the rules it evaluates, in their order. -/
def ruleResults (rules : List (String × Value)) : Except PyError (List Value) :=
  rules.mapM fun rule => (evaluateDefinition py search catalog vars rule.2).map (ruleResult rule.1)

end Results

/-! ### What the walk finds -/

section Collected
variable {py : PyText} {search : RegexSearch} {catalog vars : Dict}

variable {entry : Value}

theorem mem_collectAll {vs : List Value} : entry ∈ collectAll vs ↔ ∃ v ∈ vs, entry ∈ collect v := by
  induction vs with
  | nil => simp [collectAll]
  | cons v vs ih => rw [collectAll, List.mem_append, ih, List.exists_mem_cons_iff]

theorem mem_collectFields {kvs : Dict} :
    entry ∈ collectFields kvs ↔ ∃ kv ∈ kvs, entry ∈ collect kv.2 := by
  induction kvs with
  | nil => simp [collectFields]
  | cons kv kvs ih =>
    obtain ⟨k, v⟩ := kv
    rw [collectFields, List.mem_append, ih, List.exists_mem_cons_iff]

/-- The values that an entry of `conditions` takes from elsewhere: the name and the source of the
    variable, the operator, the threshold, and the value. -/
def takenValues (py : PyText) (catalog vars : Dict) (c : Condition) : List Value :=
  let id := conditionVariable py c.node
  let described := catalog.lookup id
  [(described.bind (Value.field "name")).getD (.str id),
    (described.bind (Value.field "source_id")).getD .null,
    (c.node.field "operator").getD (.str "=="), conditionExpected py c.node,
    (vars.lookup id).getD .null]

theorem isFailure_eq_false {kvs : Dict} (h : kvs.lookup "operator" = none) :
    isFailure kvs = false := by
  rw [isFailure, h, Option.isSome_none, Bool.and_false, Bool.false_and]

theorem mem_collect_condition {c : Condition} :
    entry ∈ collect (conditionEntry py catalog vars c) ↔
      (c.passed = false ∧ entry = conditionEntry py catalog vars c) ∨
        ∃ v ∈ takenValues py catalog vars c, entry ∈ collect v := by
  obtain ⟨kvs, hkvs⟩ : ∃ kvs, conditionEntry py catalog vars c = .dict kvs := ⟨_, rfl⟩
  have hfailure : isFailure kvs = !c.passed := by
    cases hkvs
    show (!c.passed && true && true) = !c.passed
    simp
  have hfields : entry ∈ collectFields kvs ↔
      ∃ v ∈ takenValues py catalog vars c, entry ∈ collect v := by
    rw [mem_collectFields]
    cases hkvs
    simp [takenValues, collect]
  simp_all [collect]

theorem collect_group {g : GroupResult} : collect (groupEntry g) = collect g.id := by
  rw [groupEntry, collect, isFailure_eq_false rfl]
  simp [collectFields, collect]

def Evaluated (py : PyText) (search : RegexSearch) (vars : Dict) (rule : Value) (overall : Bool)
    (t : Trace) : Prop :=
  ∃ tree, definitionTree py rule = .ok tree ∧
    evaluateNodeOn py (conditionPasses py search vars) (MAX_RULE_TREE_DEPTH + 1) tree
      (pyLogic py tree) = .ok (overall, t)

theorem mem_collect_ruleResult {refId : String} {rule result : Value}
    (h : evaluateDefinition py search catalog vars rule = .ok result) :
    ∃ overall t, Evaluated py search vars rule overall t ∧
      (entry ∈ collect (ruleResult refId result) ↔
        (∃ c ∈ t.conditions, entry ∈ collect (conditionEntry py catalog vars c)) ∨
          ∃ g ∈ t.groups, entry ∈ collect g.id) := by
  obtain ⟨tree, htree, h⟩ := bind_eq_ok.1 h
  rw [evaluateTree] at h
  split at h
  · cases h
  · obtain ⟨⟨overall, t⟩, hnode, h⟩ := bind_eq_ok.1 h
    cases h
    refine ⟨overall, t, ⟨tree, htree, hnode⟩, ?_⟩
    rw [ruleResult, collect, isFailure_eq_false rfl, List.mem_append, mem_collectFields]
    simp [collect, mem_collectAll, collect_group, Value.asDict]

/-- The entry of a condition of one of the rules that failed. -/
def FailedCondition (py : PyText) (search : RegexSearch) (catalog vars : Dict)
    (rules : List (String × Value)) (entry : Value) : Prop :=
  ∃ rule ∈ rules, ∃ overall t, Evaluated py search vars rule.2 overall t ∧
    ∃ c ∈ t.conditions, c.passed = false ∧ entry = conditionEntry py catalog vars c

/-- A value the results of the rules hold that is not of their making. -/
def Taken (py : PyText) (search : RegexSearch) (catalog vars : Dict)
    (rules : List (String × Value)) (v : Value) : Prop :=
  ∃ rule ∈ rules, ∃ overall t, Evaluated py search vars rule.2 overall t ∧
    ((∃ c ∈ t.conditions, v ∈ takenValues py catalog vars c) ∨ ∃ g ∈ t.groups, v = g.id)

theorem Evaluated.unique {rule : Value} {overall overall' : Bool} {t t' : Trace}
    (h : Evaluated py search vars rule overall t) (h' : Evaluated py search vars rule overall' t') :
    overall = overall' ∧ t = t' := by
  obtain ⟨tree, htree, hnode⟩ := h
  obtain ⟨tree', htree', hnode'⟩ := h'
  simp_all

/-- **What the walk finds:** the conditions that failed, and what is in values taken from
    elsewhere. -/
theorem mem_collect_ruleResults {rules : List (String × Value)} {results : List Value}
    (h : ruleResults py search catalog vars rules = .ok results) :
    entry ∈ collect (.list results) ↔ FailedCondition py search catalog vars rules entry ∨
      ∃ v, Taken py search catalog vars rules v ∧ entry ∈ collect v := by
  obtain ⟨hrules, hresults⟩ := mapM_mem h
  rw [collect, mem_collectAll]
  constructor
  · rintro ⟨result, hresult, hentry⟩
    obtain ⟨rule, hrule, hmap⟩ := hresults result hresult
    obtain ⟨answer, heval, rfl⟩ := map_eq_ok.1 hmap
    obtain ⟨overall, t, hevaluated, hiff⟩ := mem_collect_ruleResult heval
    rcases hiff.1 hentry with ⟨c, hc, hentry⟩ | ⟨g, hg, hentry⟩
    · rcases mem_collect_condition.1 hentry with ⟨hfailed, rfl⟩ | ⟨v, hv, hentry⟩
      · exact .inl ⟨rule, hrule, overall, t, hevaluated, c, hc, hfailed, rfl⟩
      · exact .inr ⟨v, ⟨rule, hrule, overall, t, hevaluated, .inl ⟨c, hc, hv⟩⟩, hentry⟩
    · exact .inr ⟨g.id, ⟨rule, hrule, overall, t, hevaluated, .inr ⟨g, hg, rfl⟩⟩, hentry⟩
  · rintro (⟨rule, hrule, overall, t, hevaluated, c, hc, hfailed, rfl⟩ |
      ⟨v, ⟨rule, hrule, overall, t, hevaluated, htaken⟩, hentry⟩)
    · obtain ⟨result, hresult, hmap⟩ := hrules rule hrule
      obtain ⟨answer, heval, rfl⟩ := map_eq_ok.1 hmap
      obtain ⟨overall', t', hevaluated', hiff⟩ := mem_collect_ruleResult heval
      obtain ⟨-, rfl⟩ := hevaluated.unique hevaluated'
      exact ⟨_, hresult, hiff.2 (.inl ⟨c, hc, mem_collect_condition.2 (.inl ⟨hfailed, rfl⟩)⟩)⟩
    · obtain ⟨result, hresult, hmap⟩ := hrules rule hrule
      obtain ⟨answer, heval, rfl⟩ := map_eq_ok.1 hmap
      obtain ⟨overall', t', hevaluated', hiff⟩ := mem_collect_ruleResult heval
      obtain ⟨-, rfl⟩ := hevaluated.unique hevaluated'
      refine ⟨_, hresult, hiff.2 ?_⟩
      rcases htaken with ⟨c, hc, hv⟩ | ⟨g, hg, rfl⟩
      · grind [mem_collect_condition]
      · exact .inr ⟨g, hg, hentry⟩

end Collected

/-! ### What is reported -/

section Reported
variable {py : PyText} {search : RegexSearch} {catalog vars : Dict}

def TooLarge (v : Value) : Prop := ∃ n : ℤ, v = .int n ∧ Text.roundF64 n = none

theorem coerceNumber_cases (v : Value) : (∃ x, coerceNumber py v = .ok x) ∨
    (coerceNumber py v = .error .overflowError ∧ TooLarge v) := by
  cases v with
  | int n =>
    rw [coerceNumber]
    cases hround : Text.roundF64 n with
    | none => exact .inr ⟨rfl, n, rfl, hround⟩
    | some q => exact .inl ⟨some q, rfl⟩
  | _ => exact .inl ⟨_, rfl⟩

theorem miss_cases (cond : Value) : (∃ x, miss py cond = .ok x) ∨
    (miss py cond = .error .overflowError ∧
      (TooLarge (getNull cond "value") ∨ TooLarge (getNull cond "threshold"))) := by
  rcases @coerceNumber_cases py (getNull cond "value") with ⟨actual, hactual⟩ | ⟨herr, hlarge⟩
  · rcases @coerceNumber_cases py (getNull cond "threshold") with ⟨threshold, hthreshold⟩ |
      ⟨herr, hlarge⟩
    · refine .inl ?_
      rw [miss, hactual]
      show ∃ x, (coerceNumber py (getNull cond "threshold") >>= _) = .ok x
      rw [hthreshold]
      cases actual with
      | none => exact ⟨_, rfl⟩
      | some a =>
        cases threshold with
        | none => exact ⟨_, rfl⟩
        | some t => exact ⟨_, rfl⟩
    · exact .inr ⟨bind_eq_error.2 (.inr ⟨actual, hactual, bind_eq_error.2 (.inl herr)⟩),
        .inr hlarge⟩
  · exact .inr ⟨bind_eq_error.2 (.inl herr), .inl hlarge⟩

theorem missed_fst {unique : List Value} {missed : List (Value × F64)}
    (h : unique.mapM (fun cond => (miss py cond).map fun m => (cond, m)) = .ok missed) :
    missed.map Prod.fst = unique := by
  have hall := mapM_eq_ok.1 h
  clear h
  induction hall with
  | nil => rfl
  | cons hhead _ ih =>
    obtain ⟨m, -, rfl⟩ := map_eq_ok.1 hhead
    rw [List.map_cons, ih]

/-- A list of reasons is that of different failures, each the first of its kind; with a limit
    that is large enough, of all of them. -/
theorem adverseReasonCodes_ok {results : Value} {limit : ℤ} {codes : List Value}
    (h : adverseReasonCodes py results limit = .ok codes) :
    ∃ conds : List Value, codes = conds.map (reasonOf py) ∧ (conds.map (reasonKey py)).Nodup ∧
      (∀ cond ∈ conds, cond ∈ Lib.firsts (reasonKey py) [] (collect results)) ∧
      ((((collect results).map (reasonKey py)).dedup.length : ℤ) ≤ limit →
        ∀ cond ∈ Lib.firsts (reasonKey py) [] (collect results), cond ∈ conds) := by
  obtain ⟨missed, hmissed, h⟩ := bind_eq_ok.1 h
  cases h
  have hfirsts := missed_fst hmissed
  have hperm : (ranked missed).Perm (Lib.firsts (reasonKey py) [] (collect results)) := by
    rw [← hfirsts]
    exact (List.perm_insertionSort _ missed).map Prod.fst
  refine ⟨(ranked missed).take limit.toNat, rfl, ?_, fun cond hcond => ?_,
    fun hlimit cond hcond => ?_⟩
  · grind [Lib.firsts_nodup, List.take_sublist]
  · exact hperm.mem_iff.1 (List.mem_of_mem_take hcond)
  · grind [List.take_of_length_le, hperm.length_eq, Lib.length_firsts]

/-- What a list of reasons says of the rules it was derived from. -/
structure Reported (py : PyText) (search : RegexSearch) (catalog vars : Dict)
    (rules : List (String × Value)) (results : List Value) (limit : ℤ) (codes : List Value)
    (conds : List Value) : Prop where
  codes : codes = conds.map (reasonOf py)
  once : (conds.map (reasonKey py)).Nodup
  /-- the first of its variable and its operator -/
  first : ∀ cond ∈ conds, ∃ l r, collect (.list results) = l ++ cond :: r ∧
    ∀ other ∈ l, reasonKey py other ≠ reasonKey py cond
  failed : ∀ cond ∈ conds, FailedCondition py search catalog vars rules cond ∨
    ∃ v, Taken py search catalog vars rules v ∧ cond ∈ collect v
  all : (((collect (.list results)).map (reasonKey py)).dedup.length : ℤ) ≤ limit →
    ∀ cond, FailedCondition py search catalog vars rules cond →
      ∃ reported ∈ conds, reasonKey py reported = reasonKey py cond

/-- **The reasons of a decision.**  Each is that of a condition that failed (or of an entry like
    one in a value taken from elsewhere); of those with one variable and one operator the first
    is reported, and no such pair is left out if the limit allows for all. -/
theorem reasons_adverse {rules : List (String × Value)} {results : List Value}
    (h : ruleResults py search catalog vars rules = .ok results) (limit : ℤ) :
    (∃ codes conds, adverseReasonCodes py (.list results) limit = .ok codes ∧
      Reported py search catalog vars rules results limit codes conds) ∨
    (adverseReasonCodes py (.list results) limit = .error .overflowError ∧
      ∃ cond ∈ collect (.list results),
        TooLarge (getNull cond "value") ∨ TooLarge (getNull cond "threshold")) := by
  cases hcodes : adverseReasonCodes py (.list results) limit with
  | error e =>
    rcases bind_eq_error.1 hcodes with hmissed | ⟨missed, -, h⟩
    · obtain ⟨cond, hcond, hmap⟩ := mapM_eq_error hmissed
      rcases @miss_cases py cond with ⟨x, hx⟩ | ⟨herr, hlarge⟩
      · rw [hx] at hmap
        cases hmap
      · rw [herr] at hmap
        cases hmap
        exact .inr ⟨rfl, cond, Lib.mem_of_mem_firsts hcond, hlarge⟩
    · cases h
  | ok codes =>
    obtain ⟨conds, hconds, honce, hfirst, hall⟩ := adverseReasonCodes_ok hcodes
    refine .inl ⟨codes, conds, rfl, hconds, honce, fun cond hcond => ?_, fun cond hcond => ?_,
      fun hlimit cond hcond => ?_⟩
    · exact (Lib.mem_firsts.1 (hfirst cond hcond)).2
    · exact (mem_collect_ruleResults h).1 (Lib.mem_of_mem_firsts (hfirst cond hcond))
    · obtain ⟨reported, hreported, hkey⟩ := @Lib.exists_first _ _ _ (reasonKey py) _ _
        ((mem_collect_ruleResults h).2 (.inl hcond))
      exact ⟨reported, hall hlimit reported hreported, hkey⟩

end Reported

/-! ### What counted against a rule -/

section Counted
variable (py : PyText) (search : RegexSearch) (catalog vars : Dict)

/-- The conditions of a tree as they are evaluated, each with how many NOT it stands under. -/
def placed : ℕ → ℕ → Value → List (Value × ℕ)
  | 0, _, _ => []
  | f + 1, n, node =>
    match kind node with
    | .condition => [(node, n)]
    | .not => placed f (n + 1) (Value.orElse (node.field "child") (.dict []))
    | .group =>
      match iterate (node.field "children") with
      | .ok children => children.flatMap (placed f n)
      | .error _ => []
    | .other => []

/-- The conditions that failed under an even number of NOT, of a rule that did not pass. -/
def countedAgainst (rule : Value) : List Value :=
  match definitionTree py rule with
  | .error _ => []
  | .ok tree =>
    match evaluateNodeOn py (conditionPasses py search vars) (MAX_RULE_TREE_DEPTH + 1) tree
        (pyLogic py tree) with
    | .ok (false, _) => ((placed (MAX_RULE_TREE_DEPTH + 1) 0 tree).filter fun x =>
        x.2 % 2 = 0 ∧ (conditionPasses py search vars x.1).toOption = some false).map Prod.fst
    | _ => []

/-- A reason is about a condition, with its own threshold. -/
def Names (code node : Value) : Prop :=
  code.field "variable_id" = some (.str (conditionVariable py node)) ∧
    code.field "operator" = some (.str (py.str ((node.field "operator").getD (.str "==")))) ∧
    code.field "threshold" = some (conditionExpected py node)

instance (code node : Value) : Decidable (Names py code node) :=
  inferInstanceAs (Decidable (_ ∧ _ ∧ _))

/-- Every reason is about a condition that counted against its rule. -/
def CountedOnly (rules : List (String × Value)) (codes : List Value) : Prop :=
  ∀ code ∈ codes, ∃ node ∈ rules.flatMap fun rule => countedAgainst py search vars rule.2,
    Names py code node

/-- No condition that counted against its rule is left out if the limit allows for all. -/
def AllNamed (rules : List (String × Value)) (limit : ℤ) (codes : List Value) : Prop :=
  ((rules.flatMap fun rule => countedAgainst py search vars rule.2).length : ℤ) ≤ limit →
    ∀ node ∈ rules.flatMap fun rule => countedAgainst py search vars rule.2,
      ∃ code ∈ codes, Names py code node

instance (rules : List (String × Value)) (codes : List Value) :
    Decidable (CountedOnly py search vars rules codes) :=
  inferInstanceAs (Decidable (∀ code ∈ codes, _))

instance (rules : List (String × Value)) (limit : ℤ) (codes : List Value) :
    Decidable (AllNamed py search vars rules limit codes) :=
  inferInstanceAs (Decidable (_ → _))

/-- The decision of a policy that is made of rules. -/
def decision (rules : List (String × Value)) : Except PyError String :=
  coreDecide py ⟨evaluateTree py search catalog vars, fun _ => .ok .null, fun _ => .ok .null⟩
    ⟨rules, [], []⟩ (rules.map fun rule => .dict [("type", .str "rule"), ("ref_id", .str rule.1)])

variable {py search vars}

end Counted

/-! ### A reason that spoke for the applicant -/

def comparison (id operator value : String) : Value :=
  .dict [("type", .str "condition"), ("variable", .str id), ("operator", .str operator),
    ("value", .str value)]

/-- Not on the list, and an income of two amounts. -/
def incomeRule : Value :=
  .dict [("tree", .dict [("type", .str "group"), ("logic", .str "AND"), ("children", .list [
    .dict [("type", .str "not"), ("child", comparison "employer" "==" "listed")],
    comparison "income" ">=" "1000", comparison "income" ">=" "2000"])])]

def incomeRules : List (String × Value) := [("income", incomeRule)]

def applicant : Dict := [("employer", .str "baker"), ("income", .int 500)]

def noPattern : RegexSearch := fun _ _ => false

/-- The employer is not the listed one, which the rule asks for, and is a reason; the second
    amount is none. -/
theorem reasons_not_adverse : ∃ results codes,
    decision asciiText noPattern [] applicant incomeRules = .ok "reject" ∧
    ruleResults asciiText noPattern [] applicant incomeRules = .ok results ∧
    adverseReasonCodes asciiText (.list results) 10 = .ok codes ∧
    ¬ CountedOnly asciiText noPattern applicant incomeRules codes ∧
    ¬ AllNamed asciiText noPattern applicant incomeRules 10 codes := by
  have hdecision : decision asciiText noPattern [] applicant incomeRules = .ok "reject" := by
    decide +kernel
  have hwrong : (ruleResults asciiText noPattern [] applicant incomeRules).toOption.any
      (fun results => (adverseReasonCodes asciiText (.list results) 10).toOption.any fun codes =>
        decide (¬ CountedOnly asciiText noPattern applicant incomeRules codes ∧
          ¬ AllNamed asciiText noPattern applicant incomeRules 10 codes)) = true := by
    decide +kernel
  obtain ⟨results, hresults, hwrong⟩ := (Option.any_eq_true _ _).1 hwrong
  obtain ⟨codes, hcodes, hwrong⟩ := (Option.any_eq_true _ _).1 hwrong
  exact ⟨results, codes, hdecision, toOption_eq_some.1 hresults, toOption_eq_some.1 hcodes,
    of_decide_eq_true hwrong⟩

/-- Its reasons are reported as they are for every decision. -/
theorem applicant_reasons : ∃ results codes conds,
    adverseReasonCodes asciiText (.list results) 10 = .ok codes ∧
      Reported asciiText noPattern [] applicant incomeRules results 10 codes conds := by
  have hrun : (ruleResults asciiText noPattern [] applicant incomeRules).toOption.any
      (fun results =>
        (adverseReasonCodes asciiText (.list results) 10).toOption.isSome) = true := by
    decide +kernel
  obtain ⟨results, hresults, hcodes⟩ := (Option.any_eq_true _ _).1 hrun
  rcases reasons_adverse (toOption_eq_some.1 hresults) 10 with ⟨codes, conds, h⟩ | ⟨herr, -⟩
  · exact ⟨results, codes, conds, h⟩
  · rw [herr] at hcodes
    cases hcodes

end RuleMind.Reasons
