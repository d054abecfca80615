/-
  Backtests: `fast_decide` of `app/fast_decide.py`, which serves decisions, and
  `backtest_policy` of `app/backtest.py`, which evaluates them once more on a bundle.

  A decision is what the votes of the steps settle on.  The bundle holds the same rules
  and steps, but its decision tables stand under a key the core does not read, and a
  backtest knows nothing of variables that failed nor of the engine that served.
-/
import RuleMind.BundleCompiler
import RuleMind.DecisionTable
import RuleMind.RuleEvaluation

namespace RuleMind.Backtest

open Compiler

/-! ### Votes -/

section Votes
variable (py : PyText) (ev : Evaluators) (catalog : Catalog)

/-- The text a candidate is merged as; one that is empty is not merged. -/
def voteText (candidate : Value) : Option String :=
  if candidate.truthy then some (py.str candidate) else none

/-- What a step of `decide` votes for. -/
def coreVote (step : Value) : Except PyError (Option String) :=
  match step.asDict with
  | none => .error .attributeError
  | some _ =>
    match stepKind step with
    | .rule => do
      match ← pyGetTruthy catalog.rules (refId step) with
      | none => .ok none
      | some rule => do
        let evaluation ← evaluateRuleDefinition py ev rule
        .ok (voteText py ((evaluation.field "outcome").getD .null))
    | .scorecard => do
      match ← pyGetTruthy catalog.scorecards (refId step) with
      | none => .ok none
      | some scorecard => do
        let _ ← ev.scorecard scorecard
        .ok none
    | .outcome => do
      let candidate ← coreCandidate step
      .ok (voteText py candidate)
    | .decisionTable => do
      match ← pyGetTruthy catalog.decisionTables (refId step) with
      | none => .ok none
      | some table => do
        let result ← ev.decisionTable table
        .ok (voteText py ((result.field "outcome").getD .null))
    | .connector | .action | .reviewGate | .transform | .model => .ok none
    | .unhashable => .error .typeError
    | .loop | .branch | .workflow | .monitor | .other => .ok (some "review")

def coreVotes (steps : List Value) : Except PyError (List String) :=
  (steps.mapM (coreVote py ev catalog)).map List.reduceOption

end Votes

theorem coreVotes_cons (py : PyText) (ev : Evaluators) (catalog : Catalog) (step : Value)
    (steps : List Value) : coreVotes py ev catalog (step :: steps) =
      (coreVote py ev catalog step).bind fun v =>
        (coreVotes py ev catalog steps).map (v.toList ++ ·) := by
  unfold coreVotes
  rw [List.mapM_cons]
  cases coreVote py ev catalog step with
  | error e => rfl
  | ok v =>
    cases steps.mapM (coreVote py ev catalog) with
    | error e => rfl
    | ok vs =>
      cases v with
      | none => rfl
      | some o => rfl

theorem strongest_append (vs ws : List String) :
    strongest (vs ++ ws) = max (strongest vs) (strongest ws) := by
  induction vs with
  | nil => exact (Nat.zero_max _).symm
  | cons v vs ih => grind [strongest]

section RustVotes
variable (evaluateTree : Value → Except RuleTree.EvalError String) (rules : Dict)

/-- What a step of `CompiledBundle::steps` votes for. -/
def bundleVote (step : Value) : Except RuleTree.EvalError (Option String) :=
  match stepKind step with
  | .rule =>
    match (rules.lookup (bundleRef step)).bind (Value.field "tree") with
    | some tree => (evaluateTree tree).map some
    | none => .ok none
  | .outcome => .ok (some (bundleOutcome step))
  | _ => .ok none

def bundleVotes (steps : List Value) : Except RuleTree.EvalError (List String) :=
  (steps.mapM (bundleVote evaluateTree rules)).map List.reduceOption

end RustVotes

def withVote (a : String) (v : Option String) : String := mergeAll v.toList a

theorem foldlM_votes {ε α : Type} {step : String → α → Except ε String}
    {vote : α → Except ε (Option String)}
    (h : ∀ a, Named a → ∀ s, step a s = (vote s).map (withVote a)) {a : String} (ha : Named a)
    (as : List α) : as.foldlM step a = ((as.mapM vote).map List.reduceOption).map (mergeAll · a) := by
  induction as generalizing a with
  | nil => rfl
  | cons s as ih =>
    rw [List.foldlM_cons, List.mapM_cons, h a ha]
    cases vote s with
    | error e => rfl
    | ok v =>
      have hnamed : Named (withVote a v) := mergeAll_named ha
      show as.foldlM step (withVote a v) = _
      rw [ih hnamed]
      cases as.mapM vote with
      | error e => rfl
      | ok vs =>
        cases v with
        | none => rfl
        | some o => rfl

section Settled
variable {py : PyText} {ev : Evaluators} {catalog : Catalog}

theorem pyMerge_voteText {a : String} (ha : Named a) (candidate : Value) :
    pyMergeOutcome py a candidate = withVote a (voteText py candidate) := by
  rw [pyMergeOutcome_eq py ha, voteText]
  split
  · rfl
  · rw [mergeOutcome_eq, if_neg (lt_irrefl _)]
    rfl

theorem voteText_filter {a : String} (ha : Named a) (o : Option Value) :
    (match o.filter Value.truthy with
      | some o => Except.ok (pyMergeOutcome py a o)
      | none => (Except.ok a : Except PyError String)) =
      Except.ok (withVote a (voteText py (o.getD .null))) := by
  cases o with
  | none => rfl
  | some o =>
    rw [← pyMerge_voteText ha, Option.filter_some]
    cases ht : o.truthy with
    | true => rfl
    | false =>
      rw [pyMerge_voteText ha, Option.getD_some, voteText, ht]
      rfl

theorem coreStep_vote {a : String} (ha : Named a) (step : Value) :
    coreStep py ev catalog a step = (coreVote py ev catalog step).map (withVote a) := by
  unfold coreStep coreVote
  cases step.asDict with
  | none => rfl
  | some kvs =>
    dsimp only
    cases stepKind step with
    | rule =>
      dsimp only
      cases pyGetTruthy catalog.rules (refId step) with
      | error e => rfl
      | ok found =>
        cases found with
        | none => rfl
        | some rule =>
          simp only [bind, Except.bind]
          cases evaluateRuleDefinition py ev rule with
          | error e => rfl
          | ok evaluation => exact congrArg Except.ok (pyMerge_voteText ha _)
    | scorecard =>
      dsimp only
      cases pyGetTruthy catalog.scorecards (refId step) with
      | error e => rfl
      | ok found =>
        cases found with
        | none => rfl
        | some card =>
          simp only [bind, Except.bind]
          cases ev.scorecard card with
          | error e => rfl
          | ok result => rfl
    | outcome =>
      dsimp only
      cases coreCandidate step with
      | error e => rfl
      | ok candidate => exact congrArg Except.ok (pyMerge_voteText ha _)
    | decisionTable =>
      dsimp only
      cases pyGetTruthy catalog.decisionTables (refId step) with
      | error e => rfl
      | ok found =>
        cases found with
        | none => rfl
        | some table =>
          simp only [bind, Except.bind]
          cases ev.decisionTable table with
          | error e => rfl
          | ok result => exact voteText_filter ha _
    | connector | action | reviewGate | transform | model => rfl
    | unhashable => rfl
    | loop | branch | workflow | monitor | other => exact congrArg Except.ok (pyMerge_voteText ha _)

theorem coreDecide_votes (steps : List Value) : coreDecide py ev catalog steps =
    (coreVotes py ev catalog steps).map fun vs => settle (mergeAll vs "pending") := by
  unfold coreDecide coreVotes
  rw [foldlM_votes (fun a ha s => coreStep_vote ha s) (Or.inl rfl)]
  cases steps.mapM (coreVote py ev catalog) with
  | error e => rfl
  | ok vs => rfl

theorem bundleDecide_votes {evaluateTree : Value → Except RuleTree.EvalError String} {rules : Dict}
    (steps : List Value) : bundleDecide evaluateTree rules steps =
      (bundleVotes evaluateTree rules steps).map fun vs => settle (mergeAll vs "pending") := by
  have hstep : ∀ a, Named a → ∀ s, bundleStep evaluateTree rules a s =
      (bundleVote evaluateTree rules s).map (withVote a) := by
    intro a _ s
    unfold bundleStep bundleVote
    cases stepKind s with
    | rule =>
      dsimp only
      cases (rules.lookup (bundleRef s)).bind (Value.field "tree") with
      | none => rfl
      | some tree =>
        dsimp only
        cases evaluateTree tree with
        | error e => rfl
        | ok o => rfl
    | _ => rfl
  unfold bundleDecide bundleVotes
  rw [foldlM_votes hstep (Or.inl rfl)]
  cases steps.mapM (bundleVote evaluateTree rules) with
  | error e => rfl
  | ok vs => rfl

end Settled

/-! ### Serving -/

/-- The native extension: whether it serves, and how it evaluates a tree on variables. -/
structure Extension where
  present : Bool
  evaluateTree : Dict → Value → Except RuleTree.EvalError String

inductive ServeError
  | raised (e : PyError)
  | extension (e : RuleTree.EvalError)
  deriving DecidableEq

/-- The extension serves policies without scorecards and tables. -/
def rulesOnly (steps : List Value) : Bool :=
  !steps.any fun step => stepKind step ∈ [StepKind.scorecard, .decisionTable]

section Serve
variable (py : PyText) (evaluators : Dict → Evaluators)
variable (validateInput : Value → Value → Except PyError (List String))

/-- The bundle a policy is served from; unlike a compiled one it holds every row. -/
def coreBundle (assets : Assets) (policy : Row) : Dict :=
  [("policy", policy.value), ("rules", .dict assets.rules.map),
    ("scorecards", .dict assets.scorecards.map),
    ("decision_tables", .dict assets.decisionTables.map),
    ("variables", .list (assets.vars.list.map (·.value)))]

def engineOutcome (extension : Extension) (assets : Assets) (policy : Row) (steps : List Value)
    (payload : Value) (values : Dict) : Except ServeError String :=
  if extension.present && rulesOnly steps then
    (bundleDecide (extension.evaluateTree values) assets.rules.map steps).mapError .extension
  else (decideBundle py (evaluators values) validateInput (coreBundle assets policy) payload
    none).mapError .raised

/-- `_fail_closed_on_variable_errors`. -/
def failClosed (failed failOpen : Bool) (outcome : Value) : Value :=
  if failed && !failOpen then .str "review" else outcome

/-- `fast_decide`, from the variables on: what they came to, and whether one failed. -/
def fastDecide (extension : Extension) (assets : Assets) (policy : Row) (payload : Value)
    (values : Dict) (failed failOpen : Bool) : Except ServeError Value := do
  let steps ← (policySteps policy.value).mapError .raised
  let outcome ← engineOutcome py evaluators validateInput extension assets policy steps payload
    values
  let outcome : Value := if outcome ≠ "pending" then .str outcome
    else (policy.value.field "defaultOutcome").getD (.str "review")
  .ok (failClosed failed failOpen outcome)

/-! ### The backtest -/

/-- What is recorded of a decision, as far as a backtest reads it. -/
structure Decision where
  id : Value
  payload : Value
  computedVariables : Dict
  outcome : Value
  createdAt : Value

structure Report where
  total : ℕ
  changed : ℕ
  errors : ℕ
  transitions : List ((Value × Value) × ℕ)
  originalCounts : List (Value × ℕ)
  replayedCounts : List (Value × ℕ)
  changedExamples : List Value

/-- `counter[key] += 1`. -/
def count {α : Type} [DecidableEq α] : List (α × ℕ) → α → List (α × ℕ)
  | [], key => [(key, 1)]
  | (k, n) :: rest, key => if k = key then (k, n + 1) :: rest else (k, n) :: count rest key

/-- The outcome a decision comes to on the bundle. -/
def replay (content : Dict) (policyId : String) (d : Decision) : Except PyError String :=
  decideBundle py (evaluators d.computedVariables) validateInput content d.payload (some policyId)

def replayedOutcome (content : Dict) (policyId : String) (d : Decision) : Value :=
  match replay py evaluators validateInput content policyId d with
  | .ok o => .str o
  | .error _ => .str "error"

/-- One decision of the loop of `backtest_policy`. -/
def backtestStep (content : Dict) (policyId : String) (maxChangedExamples : ℕ) (b : Report)
    (d : Decision) : Report :=
  let replayed := replayedOutcome py evaluators validateInput content policyId d
  let failed := (replay py evaluators validateInput content policyId d).toOption.isNone
  let differs := d.outcome ≠ replayed
  { total := b.total + 1
    changed := if differs then b.changed + 1 else b.changed
    errors := if failed then b.errors + 1 else b.errors
    transitions := count b.transitions (d.outcome, replayed)
    originalCounts := count b.originalCounts d.outcome
    replayedCounts := count b.replayedCounts replayed
    changedExamples :=
      if differs ∧ b.changedExamples.length < maxChangedExamples then
        b.changedExamples ++ [.dict [("decision_id", d.id), ("from", d.outcome), ("to", replayed),
          ("created_at", d.createdAt)]]
      else b.changedExamples }

/-- `backtest_policy`, on the decisions it replays. -/
def backtestPolicy (content : Dict) (policyId : String) (maxChangedExamples : ℕ)
    (decisions : List Decision) : Report :=
  decisions.foldl (backtestStep py evaluators validateInput content policyId maxChangedExamples)
    ⟨0, 0, 0, [], [], [], []⟩

end Serve

/-! ### A policy over production assets -/

def Names (rows : List Row) (step : Value) : Prop := ∃ r ∈ rows, refId step = .str r.id

/-- A rule, scorecard or table step that names a production row, or an outcome step. -/
def OverProd (assets : Assets) (step : Value) : Prop :=
  match stepKind step with
  | .rule => Names assets.rules.prod step
  | .scorecard => Names assets.scorecards.prod step
  | .decisionTable => Names assets.decisionTables.prod step
  | .outcome => True
  | _ => False

structure ProdPolicy (assets : Assets) where
  row : Row
  mem : row ∈ assets.policies.prod
  steps : List Value
  read : policySteps row.value = .ok steps
  prod : ∀ step ∈ steps, OverProd assets step

def servingCatalog (assets : Assets) : Catalog :=
  ⟨assets.rules.map, assets.scorecards.map, assets.decisionTables.map⟩

/-- The collections the core reads off a compiled bundle. -/
def bundleCatalog (py : PyText) (content : Dict) : Catalog :=
  ⟨asMap py (content.lookup "rules"), asMap py (content.lookup "scorecards"),
    asMap py (content.lookup "decision_tables")⟩

def tableSteps (steps : List Value) : List Value := steps.filter (stepKind · = .decisionTable)

def otherSteps (steps : List Value) : List Value := steps.filter (stepKind · ≠ .decisionTable)

section Replay
variable {py : PyText} {frames : ℕ} {assets : Assets} {content : Dict} {ev : Evaluators}

variable {step : Value} {steps : List Value}

theorem OverProd.asDict (h : OverProd assets step) :
    step.asDict.isSome = true ∧ stepKind step ∈ bundledKinds := by
  match step with
  | .dict kvs =>
    refine ⟨rfl, ?_⟩
    unfold OverProd at h
    split at h
    all_goals first | contradiction | (rename_i hk; rw [hk]; decide)
  | .null | .bool _ | .int _ | .float _ | .inf _ | .str _ | .list _ =>
    simp [OverProd, stepKind, Value.field] at h

theorem pyGetTruthy_named {d : Dict} {v : Value} {id : String} {ref : Value}
    (href : ref = .str id) (hd : d.lookup id = some v) (hv : v.truthy = true) :
    pyGetTruthy d ref = .ok (some v) := by
  rw [href]
  show Except.ok ((d.lookup id).filter Value.truthy) = _
  rw [hd, Option.filter_some, if_pos hv]

theorem compiledRule_truthy {rule compiled : Value}
    (h : compileRule py frames rule = .ok compiled) : compiled.truthy = true := by
  obtain ⟨nodes, -, h⟩ := bind_eq_ok.1 h
  cases h
  rfl

theorem coreVote_bundle (h : Content py frames assets content)
    (hs : OverProd assets step) : coreVote py ev (bundleCatalog py content) step =
      if stepKind step = .decisionTable then .ok none
      else coreVote py ev (servingCatalog assets) step := by
  obtain ⟨kvs, hdict⟩ := Option.isSome_iff_exists.1 hs.asDict.1
  unfold OverProd at hs
  unfold coreVote
  simp only [hdict]
  cases hk : stepKind step with
  | rule =>
    rw [hk] at hs
    obtain ⟨r, hr, href⟩ := hs
    obtain ⟨rule, hrule⟩ := r.asDict
    have hcompiled := h.compiledRule r hr
    have hbundle := pyGetTruthy_named href (h.rule_lookup hr) (compiledRule_truthy hcompiled)
    have hserving := pyGetTruthy_named href (Rows.map_lookup (Rows.mem_of_prod hr)) r.truthy
    have heval : evaluateRuleDefinition py ev (compiledRow (compileRule py frames) r) =
        evaluateRuleDefinition py ev r.value := by
      unfold evaluateRuleDefinition
      rw [definitionTree_compiled hrule hcompiled]
    simp only [bundleCatalog, servingCatalog, hbundle, hserving, bind, Except.bind, heval,
      reduceCtorEq, if_false]
  | scorecard =>
    rw [hk] at hs
    obtain ⟨r, hr, href⟩ := hs
    have hlookup : (asMap py (content.lookup "scorecards")).lookup r.id = some r.value :=
      h.scorecard_lookup hr
    have hbundle := pyGetTruthy_named href hlookup r.truthy
    have hserving := pyGetTruthy_named href (Rows.map_lookup (Rows.mem_of_prod hr)) r.truthy
    simp only [bundleCatalog, servingCatalog, hbundle, hserving, reduceCtorEq, if_false]
  | decisionTable =>
    rw [hk] at hs
    obtain ⟨r, hr, href⟩ := hs
    simp only [bundleCatalog, h.tables, asMap, href, if_true]
    rfl
  | outcome => rfl
  | _ =>
    rw [hk] at hs
    exact absurd hs (by simp)

theorem coreVotes_bundle (h : Content py frames assets content)
    (hs : ∀ step ∈ steps, OverProd assets step) :
    coreVotes py ev (bundleCatalog py content) steps =
      coreVotes py ev (servingCatalog assets) (otherSteps steps) := by
  induction steps with
  | nil => rfl
  | cons step steps ih =>
    rw [coreVotes_cons, coreVote_bundle h (hs step List.mem_cons_self),
      ih fun s hmem => hs s (List.mem_cons_of_mem _ hmem)]
    by_cases hk : stepKind step = .decisionTable
    · rw [if_pos hk, otherSteps, otherSteps, List.filter_cons_of_neg (by simpa using hk)]
      show (coreVotes py ev (servingCatalog assets) _).map (fun vs => [] ++ vs) = _
      cases coreVotes py ev (servingCatalog assets) (steps.filter (stepKind · ≠ .decisionTable)) with
      | error e => rfl
      | ok vs => rfl
    · simp_all [otherSteps, coreVotes_cons]

theorem coreVotes_split {votes : List String} {catalog : Catalog}
    (h : coreVotes py ev catalog steps = .ok votes) :
    ∃ vs ts, coreVotes py ev catalog (otherSteps steps) = .ok vs ∧
      coreVotes py ev catalog (tableSteps steps) = .ok ts ∧
      strongest votes = max (strongest vs) (strongest ts) := by
  induction steps generalizing votes with
  | nil =>
    cases h
    exact ⟨[], [], rfl, rfl, rfl⟩
  | cons step steps ih =>
    rw [coreVotes_cons] at h
    obtain ⟨v, hv, h⟩ := bind_eq_ok.1 h
    obtain ⟨rest, hrest, rfl⟩ := map_eq_ok.1 h
    obtain ⟨vs, ts, hvs, hts, hmax⟩ := ih hrest
    have hadd : strongest (v.toList ++ rest) = max (strongest v.toList) (strongest rest) :=
      strongest_append _ _
    by_cases hk : stepKind step = .decisionTable
    · refine ⟨vs, v.toList ++ ts, ?_, ?_, ?_⟩
      · grind [otherSteps]
      · rw [tableSteps, List.filter_cons_of_pos (by simpa using hk), coreVotes_cons, hv]
        exact congrArg (Except.map (v.toList ++ ·)) hts
      · rw [hadd, hmax, strongest_append]
        omega
    · refine ⟨v.toList ++ vs, ts, ?_, ?_, ?_⟩
      · rw [otherSteps, List.filter_cons_of_pos (by simpa using hk), coreVotes_cons, hv]
        exact congrArg (Except.map (v.toList ++ ·)) hvs
      · grind [tableSteps]
      · rw [hadd, hmax, strongest_append]
        omega

end Replay

/-! ### When a backtest reports no change -/

section Unchanged
variable {py : PyText} {evaluators : Dict → Evaluators}
variable {validateInput : Value → Value → Except PyError (List String)} {frames : ℕ}
variable {assets : Assets} {content : Dict}

variable {policy : ProdPolicy assets}

theorem policySteps_compiled (h : Content py frames assets content) :
    policySteps (compiledRow compilePolicy policy.row) = .ok policy.steps ∧
      (compiledRow compilePolicy policy.row).field "input_schema" = none := by
  have hcompiled := h.compiledPolicy policy.row policy.mem
  generalize compiledRow compilePolicy policy.row = compiled at hcompiled
  obtain ⟨steps, hsteps, hcompiled⟩ := bind_eq_ok.1 hcompiled
  rw [policy.read] at hsteps
  cases hsteps
  rw [compileSteps_kept fun step hstep => (policy.prod step hstep).asDict] at hcompiled
  cases hcompiled
  exact ⟨rfl, rfl⟩

theorem replay_votes (policy : ProdPolicy assets) (h : Content py frames assets content)
    (d : Decision) : replay py evaluators validateInput content policy.row.id d =
      (coreVotes py (evaluators d.computedVariables) (servingCatalog assets)
        (otherSteps policy.steps)).map fun vs => settle (mergeAll vs "pending") := by
  obtain ⟨hsteps, hschema⟩ :
      policySteps (compiledRow compilePolicy policy.row) = .ok policy.steps ∧
        (compiledRow compilePolicy policy.row).field "input_schema" = none :=
    policySteps_compiled h
  have hvalid : inputErrors validateInput d.payload (Value.orElse
      ((compiledRow compilePolicy policy.row).field "input_schema")
      ((content.lookup "input_schema").getD .null)) = .ok [] := by
    rw [hschema, h.schema]
    rfl
  unfold replay decideBundle
  simp only [h.selectPolicy policy.mem, bind, Except.bind, hvalid, hsteps]
  show coreDecide py _ (bundleCatalog py content) policy.steps = _
  rw [coreDecide_votes, coreVotes_bundle h policy.prod]

/-- A decision `fast_decide` served for the policy, with what its variables came to. -/
structure ServedDecision (py : PyText) (evaluators : Dict → Evaluators)
    (validateInput : Value → Value → Except PyError (List String)) (policy : ProdPolicy assets) where
  id : Value
  createdAt : Value
  payload : Value
  values : Dict
  /-- A variable could not be computed, and whether the workspace decides nevertheless. -/
  failed : Bool
  failOpen : Bool
  extension : Extension
  outcome : Value
  served : fastDecide py evaluators validateInput extension assets policy.row payload values failed
    failOpen = .ok outcome

namespace ServedDecision
variable {policy : ProdPolicy assets} (d : ServedDecision py evaluators validateInput policy)

def decision : Decision := ⟨d.id, d.payload, d.values, d.outcome, d.createdAt⟩

/-- The votes of some steps, on the variables of the decision. -/
def votes (steps : List Value) : Except PyError (List String) :=
  coreVotes py (evaluators d.values) (servingCatalog assets) steps

def byExtension : Bool := d.extension.present && rulesOnly policy.steps

def extensionVotes : Except RuleTree.EvalError (List String) :=
  bundleVotes (d.extension.evaluateTree d.values) assets.rules.map policy.steps

/-- Votes that settle on one outcome: as strong, or none on one side and review on the other. -/
def SettleAlike (vs ws : List String) : Prop :=
  strongest vs = strongest ws ∨ (strongest vs = 0 ∧ strongest ws = 3) ∨
    (strongest vs = 3 ∧ strongest ws = 0)

/-- When the decision comes to the same outcome again. -/
def ReplaysAlike : Prop :=
  if d.failed && !d.failOpen then
    -- it was sent to review, as the other steps would send it
    ∃ vs, d.votes (otherSteps policy.steps) = .ok vs ∧ SettleAlike vs []
  else if d.byExtension then
    -- the extension reads votes as strong as the core does
    ∃ vs ws, d.votes (otherSteps policy.steps) = .ok vs ∧ d.extensionVotes = .ok ws ∧
      SettleAlike vs ws
  else
    -- no table has the last word
    ∀ vs ts, d.votes (otherSteps policy.steps) = .ok vs →
      d.votes (tableSteps policy.steps) = .ok ts →
      strongest ts ≤ strongest vs ∨ (strongest vs = 0 ∧ strongest ts = 3)

end ServedDecision

theorem settle_votes (vs ws : List String) :
    settle (mergeAll vs "pending") = settle (mergeAll ws "pending") ↔
      ServedDecision.SettleAlike vs ws := by
  have hrank : ∀ us, rank (mergeAll us "pending") = strongest us := by
    intro us
    rw [rank_mergeAll]
    exact Nat.zero_max _
  rw [settle_eq_iff (mergeAll_named (Or.inl rfl)) (mergeAll_named (Or.inl rfl)), hrank, hrank]
  rfl

theorem settle_named (vs : List String) : 0 < rank (settle (mergeAll vs "pending")) := by
  have hnamed : Named (mergeAll vs "pending") := mergeAll_named (Or.inl rfl)
  unfold settle
  split
  · decide
  · rename_i hne
    exact hnamed.resolve_left hne

theorem coreBundle_votes {payload : Value} {values : Dict}
    {o : String} (h : decideBundle py (evaluators values) validateInput
      (coreBundle assets policy.row) payload none = .ok o) :
    ∃ votes, coreVotes py (evaluators values) (servingCatalog assets) policy.steps = .ok votes ∧
      o = settle (mergeAll votes "pending") := by
  obtain ⟨kvs, hdict⟩ := policy.row.asDict
  have hselect : selectPolicy (coreBundle assets policy.row) none = .ok policy.row.value := by
    have hfilter : ((coreBundle assets policy.row).lookup "policy").filter
        (fun p => p.asDict.isSome) = some policy.row.value := by
      show (some policy.row.value).filter _ = _
      rw [Option.filter_some, hdict]
      rfl
    unfold selectPolicy
    rw [hfilter]
  obtain ⟨p, hp, h⟩ := bind_eq_ok.1 h
  rw [hselect] at hp
  cases hp
  obtain ⟨errors, -, h⟩ := bind_eq_ok.1 h
  obtain ⟨steps, hsteps, h⟩ := bind_eq_ok.1 h
  rw [policy.read] at hsteps
  cases hsteps
  have h : coreDecide py (evaluators values) (servingCatalog assets) policy.steps = .ok o := h
  rw [coreDecide_votes] at h
  obtain ⟨votes, hvotes, rfl⟩ := map_eq_ok.1 h
  exact ⟨votes, hvotes, rfl⟩

/-- The engine that served decided by votes; where the variables were computed, these are
    what the decision rests on. -/
theorem engineOutcome_votes (d : ServedDecision py evaluators validateInput policy) :
    ∃ ws, d.outcome = failClosed d.failed d.failOpen (.str (settle (mergeAll ws "pending"))) ∧
      (if d.byExtension then d.extensionVotes = .ok ws else d.votes policy.steps = .ok ws) := by
  obtain ⟨steps, hsteps, hserved⟩ := bind_eq_ok.1 d.served
  rw [policy.read] at hsteps
  cases hsteps
  obtain ⟨o, ho, hserved⟩ := bind_eq_ok.1 hserved
  obtain ⟨ws, hws, rfl⟩ : ∃ ws, (if d.byExtension then d.extensionVotes = .ok ws
      else d.votes policy.steps = .ok ws) ∧ o = settle (mergeAll ws "pending") := by
    unfold engineOutcome at ho
    unfold ServedDecision.byExtension
    split at ho
    · rename_i hext
      have ho := mapError_eq_ok.1 ho
      rw [bundleDecide_votes] at ho
      obtain ⟨ws, hws, rfl⟩ := map_eq_ok.1 ho
      exact ⟨ws, by rw [if_pos hext]; exact hws, rfl⟩
    · rename_i hext
      obtain ⟨ws, hws, rfl⟩ := coreBundle_votes (mapError_eq_ok.1 ho)
      exact ⟨ws, by rw [if_neg hext]; exact hws, rfl⟩
  refine ⟨ws, ?_, hws⟩
  have hne : settle (mergeAll ws "pending") ≠ "pending" := by
    intro h
    have hrank := settle_named ws
    rw [h] at hrank
    exact absurd hrank (by decide)
  simp_all

theorem replayedOutcome_iff (h : Content py frames assets content)
    (d : ServedDecision py evaluators validateInput policy) :
    d.outcome = replayedOutcome py evaluators validateInput content policy.row.id d.decision ↔
      d.ReplaysAlike := by
  obtain ⟨ws, houtcome, hws⟩ := engineOutcome_votes d
  have hreplay : replayedOutcome py evaluators validateInput content policy.row.id d.decision =
      match d.votes (otherSteps policy.steps) with
      | .ok vs => .str (settle (mergeAll vs "pending"))
      | .error _ => .str "error" := by
    unfold replayedOutcome
    rw [replay_votes policy h]
    show (match (d.votes (otherSteps policy.steps)).map _ with
      | .ok o => Value.str o | .error _ => .str "error") = _
    cases d.votes (otherSteps policy.steps) with
    | error e => rfl
    | ok vs => rfl
  have hnoerror : ∀ us, settle (mergeAll us "pending") ≠ "error" := by
    intro us herr
    have hrank := settle_named us
    rw [herr] at hrank
    exact absurd hrank (by decide)
  rw [houtcome, hreplay]
  unfold ServedDecision.ReplaysAlike failClosed
  by_cases hclosed : (d.failed && !d.failOpen) = true
  · rw [if_pos hclosed, if_pos hclosed]
    cases hvs : d.votes (otherSteps policy.steps) with
    | error e => simp
    | ok vs =>
      have hreview : settle (mergeAll [] "pending") = "review" := by decide
      simp only [Value.str.injEq, Except.ok.injEq, exists_eq_left', ← settle_votes, hreview]
      exact eq_comm
  · rw [if_neg hclosed, if_neg hclosed]
    by_cases hext : d.byExtension = true
    · rw [if_pos hext] at hws ⊢
      cases hvs : d.votes (otherSteps policy.steps) with
      | error e => simp [hnoerror ws]
      | ok vs =>
        show Value.str _ = Value.str _ ↔ _
        rw [Value.str.injEq, eq_comm, settle_votes]
        simp_all
    · rw [if_neg hext] at hws ⊢
      obtain ⟨vs, ts, hvs, hts, hmax⟩ := coreVotes_split hws
      have hvs : d.votes (otherSteps policy.steps) = .ok vs := hvs
      have hts : d.votes (tableSteps policy.steps) = .ok ts := hts
      rw [hvs]
      show Value.str _ = Value.str _ ↔ _
      rw [Value.str.injEq, settle_votes, ServedDecision.SettleAlike]
      grind

theorem backtest_changed (content : Dict) (policyId : String) (n : ℕ) (decisions : List Decision)
    (b : Report) :
    (decisions.foldl (backtestStep py evaluators validateInput content policyId n) b).changed =
      b.changed + decisions.countP fun d =>
        d.outcome ≠ replayedOutcome py evaluators validateInput content policyId d := by
  induction decisions generalizing b with
  | nil => rfl
  | cons d decisions ih =>
    rw [List.foldl_cons, ih, List.countP_cons]
    show (if _ then b.changed + 1 else b.changed) + _ = _
    grind

/-- Over decisions served for a policy of production assets, a backtest on the bundle compiled
    from these assets reports no change if and only if each of them replays alike. -/
theorem backtest_unchanged_iff {compileVariable : Value → Except String Value}
    {policy : ProdPolicy assets} (h : compileBundle py frames compileVariable assets = .ok content)
    (maxChangedExamples : ℕ) (served : List (ServedDecision py evaluators validateInput policy)) :
    (backtestPolicy py evaluators validateInput content policy.row.id maxChangedExamples
      (served.map ServedDecision.decision)).changed = 0 ↔ ∀ d ∈ served, d.ReplaysAlike := by
  have hcontent := compileBundle_content h
  unfold backtestPolicy
  rw [backtest_changed]
  simp only [Nat.zero_add, List.countP_eq_zero, List.mem_map, forall_exists_index, and_imp,
    forall_apply_eq_imp_iff₂, ne_eq, decide_not, Bool.not_eq_true, Bool.not_eq_false',
    decide_eq_true_eq]
  constructor
  · exact fun hall d hd => (replayedOutcome_iff hcontent d).1 (hall d hd)
  · exact fun hall d hd => (replayedOutcome_iff hcontent d).2 (hall d hd)

end Unchanged

/-! ### A decision made by a table -/

/-- What `decide` reads of the result of a table. -/
def tableValue (r : DecisionTable.TableResult) : Value :=
  .dict [("outputs", .dict r.outputs), ("outcome", r.outcome)]

/-- Rules and tables evaluated on the variables; there are no scorecards. -/
def loanEvaluators (vars : Dict) : Evaluators :=
  ⟨RuleTree.evaluateTree decimalPy (fun _ _ => false) [] vars, fun _ => .error .attributeError,
    fun table => (DecisionTable.evaluateDecisionTable decimalPy (fun _ _ => false) table vars).map
      tableValue⟩

def lowScores : Row where
  id := "low"
  value := .dict [("id", .str "low"), ("name", .str "Low scores"), ("status", .str "prod"),
    ("hit_policy", .str "first"), ("inputs", .list [.dict [("id", .str "score")]]),
    ("outputs", .list [.dict [("id", .str "decision"), ("type", .str "outcome")]]),
    ("rows", .list [.dict [("id", .str "row_1"),
      ("cells", .dict [("score", .dict [("operator", .str "<"), ("value", .int 600)])]),
      ("outputs", .dict [("decision", .str "reject")])]])]
  named := rfl
  nonempty := by decide

/-- The policy approves, unless the table rejects. -/
def loanSteps : List Value :=
  [.dict [("type", .str "decision_table"), ("ref_id", .str "low")],
    .dict [("type", .str "outcome"), ("ref_id", .str "approve")]]

def loanRow : Row where
  id := "loan"
  value := .dict [("id", .str "loan"), ("name", .str "Loan"), ("status", .str "prod"),
    ("steps", .list loanSteps)]
  named := rfl
  nonempty := by decide

def noRows : Rows := ⟨[], List.nodup_nil⟩

def loanAssets : Assets :=
  ⟨noRows, noRows, noRows, ⟨[lowScores], by simp⟩, ⟨[loanRow], by simp⟩, noRows⟩

def loanPolicy : ProdPolicy loanAssets where
  row := loanRow
  mem := List.mem_cons_self
  steps := loanSteps
  read := rfl
  prod := by
    intro step hstep
    rcases List.mem_cons.1 hstep with rfl | hstep
    · exact ⟨lowScores, List.mem_cons_self, rfl⟩
    · rw [List.mem_singleton.1 hstep]
      trivial

def loanContent : Dict :=
  [("variables", .list []), ("rules", .list []), ("scorecards", .list []),
    ("decisionTables", .list [compileTable lowScores.value]),
    ("policies", .list [.dict [("id", .str "loan"), ("name", .str "Loan"),
      ("steps", .list loanSteps), ("serverOnlySteps", .list []), ("defaultOutcome", .null),
      ("trigger", .null)]]),
    ("experiments", .list []), ("serverOnlyVariables", .list []),
    ("compilationWarnings", .list [])]

theorem loan_compiled :
    compileBundle decimalPy 1000 (fun _ => .error "unsupported") loanAssets = .ok loanContent := by
  apply toOption_eq_some.1
  decide +kernel

abbrev LoanDecision := ServedDecision decimalPy loanEvaluators (fun _ _ => .ok []) loanPolicy

def approved : LoanDecision where
  id := .str "d1"
  createdAt := .null
  payload := .dict []
  values := [("score", .int 700)]
  failed := false
  failOpen := false
  extension := ⟨false, fun _ _ => .ok "approve"⟩
  outcome := .str "approve"
  served := toOption_eq_some.1 (by decide +kernel)

def rejected : LoanDecision where
  id := .str "d2"
  createdAt := .null
  payload := .dict []
  values := [("score", .int 540)]
  failed := false
  failOpen := false
  extension := ⟨false, fun _ _ => .ok "approve"⟩
  outcome := .str "reject"
  served := toOption_eq_some.1 (by decide +kernel)

theorem approved_alike : approved.ReplaysAlike := by
  have hts : approved.votes (tableSteps loanSteps) = .ok [] :=
    toOption_eq_some.1 (by decide +kernel)
  show ∀ vs ts, _ → approved.votes (tableSteps loanSteps) = .ok ts → _
  intro vs ts _ h
  rw [hts] at h
  cases h
  exact Or.inl (Nat.zero_le _)

theorem approved_unchanged :
    (backtestPolicy decimalPy loanEvaluators (fun _ _ => .ok []) loanContent "loan" 50
      [approved.decision]).changed = 0 := by
  refine (backtest_unchanged_iff loan_compiled 50 [approved]).2 ?_
  intro d hd
  rw [List.mem_singleton.1 hd]
  exact approved_alike

/-- The decision the table made comes to another outcome: the core does not find the table. -/
theorem table_ignored :
    compileBundle decimalPy 1000 (fun _ => .error "unsupported") loanAssets = .ok loanContent ∧
    (backtestPolicy decimalPy loanEvaluators (fun _ _ => .ok []) loanContent "loan" 50
      [rejected.decision]).changed = 1 ∧
    replayedOutcome decimalPy loanEvaluators (fun _ _ => .ok []) loanContent "loan"
      rejected.decision = .str "approve" := by
  refine ⟨loan_compiled, ?_, ?_⟩
  · decide +kernel
  · decide +kernel

end RuleMind.Backtest
