/-
  `PolicyExecutor` of `app/executor.py`: the steps of a policy, one after the other
  and nested, over the context of a run.

  What a step asks of the outside (an outbound request, a model, a review task, the clock) goes
  through `Host`, over a world of any type; conditions, paths and the evaluators are functions of
  what they are given.  Nested step lists run under a bound on the frames, as in the interpreter.
-/
import RuleMind.DecisionCore
import RuleMind.ExecutionContext
import RuleMind.Lib.Prog

namespace RuleMind

/-! ### The host -/

/-- What escapes a step: the budget, or any other exception. -/
inductive Raised
  | budgetExceeded
  | error (e : PyError)
  deriving DecidableEq, Repr

structure Assignment where
  experimentId : String
  variant : Option String

inductive Fired
  | answered (result : Value)
  | failed (result : Value)
  | raised (e : PyError)

structure Host (W : Type) where
  py : PyText
  calendar : Calendar
  /-- The evaluators, on a map of variables. -/
  evaluators : Dict → Evaluators
  evaluateCondition : Value → Value → Except PyError Bool
  resolveCollection : Value → Value → Except PyError Value
  /-- The output key and the result of a transform step. -/
  transform : Value → Value → Except PyError (String × Value)
  assignment : Value → Option Assignment
  rules : Option Assignment → Dict
  scorecards : Dict
  decisionTables : Dict
  connectors : Dict
  fetchEnabled : Value → Bool
  onFetchFailure : Value → String
  secrets : Value
  workflowAlias : String → String
  /-- The steps of a stored policy. -/
  policySteps : String → Option (List Value)
  failOpenOnVariableError : Bool
  evaluationBudgetMs : ℕ
  simulate : Bool
  debugStopBefore : Option ℕ
  maxPolls : ℕ
  pollMet : Value → Value → Bool
  addAuditEvent : Value → W → Bool × W
  /-- The attempts to record, and the end of a request. -/
  fire : Value → Dict → Value → Option ℤ → W → (List Value × Fired) × W
  /-- The result of a model step, and the variable it sets. -/
  model : Value → Value → Dict → W → Except PyError (Value × Option (String × Value)) × W
  /-- The id of a new task, from the step and the run as the reviewer is shown it. -/
  createReviewTask : Value → Value → W → Except PyError String × W
  now : W → ℕ × W
  uuid : W → String × W

structure Run (W : Type) where
  ctx : ExecutionContext
  visited : List String
  world : W

abbrev Exec (W : Type) := Prog (Run W) Raised

def MAX_WORKFLOW_DEPTH : ℕ := 10

section Steps
variable {W : Type} (host : Host W)

namespace Exec

def ctx {α : Type} (f : ExecutionContext → α) : Exec W α := Prog.gets fun r => f r.ctx

def update (f : ExecutionContext → ExecutionContext) : Exec W Unit :=
  Prog.modify fun r => { r with ctx := f r.ctx }

/-- A program on a changed context, reconciled with the one before. -/
def isolated {α : Type} (enter : ExecutionContext → ExecutionContext)
    (leave : ExecutionContext → ExecutionContext → ExecutionContext) (m : Exec W α) : Exec W α :=
  Prog.bracket (fun r => { r with ctx := enter r.ctx })
    (fun before after => { after with ctx := leave before.ctx after.ctx }) m

def ask {α : Type} (f : W → α × W) : Exec W α :=
  Prog.step fun r => ((f r.world).1, { r with world := (f r.world).2 })

def fail {α : Type} (e : PyError) : Exec W α := Prog.raise (.error e)

/-- `if b: m`. -/
def when (b : Prop) [Decidable b] (m : Exec W Unit) : Exec W Unit := if b then m else pure ()

def ofPy {α : Type} (x : Except PyError α) : Exec W α := Prog.ofExcept (x.mapError .error)

def visited : Exec W (List String) := Prog.gets (·.visited)

def visit (id : String) : Exec W Unit := Prog.modify fun r => { r with visited := id :: r.visited }

end Exec

open Exec

/-- `_context_view`: loop names may hide the first entries and are hidden by the last. -/
def contextView (c : ExecutionContext) : Value :=
  let outputs := c.decisionTableResults.map fun r => (r.1, (r.2.field "outputs").getD (.dict []))
  let combined := c.transformOutputs.foldl (fun d o => updateKeys d (o.2.asDict.getD [])) []
  let computed := (c.transformOutputs.lookup "computed").getD (.dict combined)
  let base : Dict := [("payload", c.payload), ("variables", .dict c.vars),
    ("scorecard", .dict c.scorecardResults), ("decision_table", .dict outputs),
    ("loop", .dict c.loopScope)]
  .dict (updateKeys (updateKeys base c.loopScope)
    [("computed", computed), ("transforms", .dict c.transformOutputs), ("outcome", .str c.outcome),
      ("execution_id", .str c.executionId), ("secrets", host.secrets),
      ("review", .dict c.reviewResponse)])

def view : Exec W Value := ctx (contextView host)

def budgetRemainingMs : Exec W (Option ℤ) := do
  let now ← ask host.now
  let deadline ← ctx (·.deadline)
  return deadline.map fun d => Int.tdiv (d - now) 1000

def checkBudget : Exec W Unit := do
  let remaining ← budgetRemainingMs host
  if remaining.any (· ≤ 0) then Prog.raise .budgetExceeded else return ()

/-! ### Step configuration -/

/-- `step.get("config", {}) if isinstance(step.get("config"), dict) else {}`. -/
def stepConfig (step : Value) : Dict := ((step.field "config").bind Value.asDict).getD []

/-- `step.get("config", {})`, whose methods need an object. -/
def rawConfig (step : Value) : Except PyError Dict :=
  match step.field "config" with
  | none => .ok []
  | some v => match v.asDict with
    | some kvs => .ok kvs
    | none => .error .attributeError

/-- `str(step.get("ref_id") or step.get("ref") or "")`. -/
def stepRef (py : PyText) (step : Value) : String :=
  if (refId step).truthy then py.str (refId step) else ""

/-- `str(step.get("id") or step.get("name") or default)`. -/
def stepName (py : PyText) (step : Value) (default : String) : String :=
  py.str (Value.orElse (step.field "id") (Value.orElse (step.field "name") (.str default)))

/-- `not condition or evaluate_condition(condition, view)`. -/
def holds (condition : Value) : Exec W Bool := do
  let v ← view host
  if condition.truthy then ofPy (host.evaluateCondition condition v) else return true

def vote (candidate : Value) : Exec W Unit :=
  update fun c => { c with outcome := pyMergeOutcome host.py c.outcome candidate }

def clampPolls (py : PyText) (maxPolls : ℕ) (v : Value) : Except PyError ℕ :=
  match pyIntOf py v with
  | .ok n => .ok (max 1 (min n maxPolls)).toNat
  | .error .typeError | .error .valueError => .ok 3
  | .error e => .error e

/-- `min(int(config.get("maxIterations", 1000)), hard_cap)`, or 1000. -/
def maxIterations (py : PyText) (v : Value) : Except PyError ℤ :=
  match pyIntOf py v with
  | .ok n => .ok (min n 10000)
  | .error .typeError | .error .valueError => .ok 1000
  | .error e => .error e

/-- `max(1, min(int(config.get("concurrency", 8)), 32))`, or 8. -/
def loopConcurrency (py : PyText) (v : Value) : Except PyError ℕ :=
  match pyIntOf py v with
  | .ok n => .ok (max 1 (min n 32)).toNat
  | .error .typeError | .error .valueError => .ok 8
  | .error e => .error e

/-! ### Gates -/

def executeRule (rules : Dict) (step : Value) : Exec W Value := do
  let ref := stepRef host.py step
  match (rules.lookup ref).filter Value.truthy with
  | none => fail .valueError
  | some rule => do
    let vars ← ctx (·.vars)
    let result ← ofPy (evaluateRuleDefinition host.py (host.evaluators vars) rule)
    let entry := setKey (updateKeys [("rule_id", .str ref)] (result.asDict.getD [])) "ruleId"
      (.str ref)
    update fun c => { c with ruleResults := c.ruleResults ++ [Value.dict entry] }
    vote host ((result.field "outcome").getD .null)
    return result

def executeDecisionTable (step : Value) : Exec W Value := do
  let ref := stepRef host.py step
  match (host.decisionTables.lookup ref).filter Value.truthy with
  | none => fail .valueError
  | some table => do
    let vars ← ctx (·.vars)
    let result ← ofPy ((host.evaluators vars).decisionTable table)
    update fun c => { c with decisionTableResults := setKey c.decisionTableResults ref result }
    match (result.field "outcome").filter Value.truthy with
    | some o => do
      vote host (.str (host.py.str o))
      return result
    | none => return result

def executeScorecard (step : Value) : Exec W Value := do
  let ref := stepRef host.py step
  match (host.scorecards.lookup ref).filter Value.truthy with
  | none => fail .valueError
  | some scorecard => do
    let vars ← ctx (·.vars)
    let result ← ofPy ((host.evaluators vars).scorecard scorecard)
    update fun c => { c with scorecardResults := setKey c.scorecardResults ref result }
    return result

/-- `step.get("ref_id") or config.get("outcome") or step.get("label") or "review"`. -/
def outcomeCandidate (step : Value) : Value :=
  Value.orElse (step.field "ref_id") (Value.orElse ((stepConfig step).lookup "outcome")
    (Value.orElse (step.field "label") (.str "review")))

def executeOutcome (step : Value) : Exec W Value := do
  vote host (outcomeCandidate step)
  let o ← ctx (·.outcome)
  return .dict [("outcome", .str o)]

/-! ### Sources, transforms and models -/

def sourceFailed (ref : String) (error onFailure : Value) : Value :=
  .dict [("status", .str "failed"), ("source", .str ref), ("error", error),
    ("on_failure", onFailure), ("payload_keys", .list [])]

/-- `sorted(list((payload or {}).keys()))`. -/
def payloadKeys (payload : Value) : Except PyError Value :=
  if payload.truthy then
    match payload.asDict with
    | some kvs => .ok (.list ((kvs.map Prod.fst).mergeSort (· ≤ ·) |>.map .str))
    | none => .error .attributeError
  else .ok (.list [])

/-- `ctx.payload[ref] = sample`. -/
def writePayload (ref : String) (sample : Value) : Exec W Unit := do
  let payload ← ctx (·.payload)
  match payload.asDict with
  | some kvs => update fun c => { c with payload := .dict (setKey kvs ref sample) }
  | none => fail .typeError

def executeConnector (step : Value) : Exec W Value := do
  let ref := stepRef host.py step
  let errors ← ctx (·.sourceFetchErrors)
  match (errors.lookup ref).filter Value.truthy with
  | some failure =>
    return sourceFailed ref ((failure.field "error").getD .null)
      ((failure.field "on_failure").getD .null)
  | none => do
    let payload ← ctx fun c => (c.payload.field ref).filter Value.truthy
    match payload with
    | some payload => do
      let keys ← ofPy (payloadKeys payload)
      return .dict [("status", .str "ok"), ("payload_keys", keys)]
    | none => do
      let connector := Value.orElse (host.connectors.lookup ref) (.dict [])
      if host.fetchEnabled connector then
        return sourceFailed ref (.str ("source_not_retrieved: this connector is configured to " ++
          "fetch at decision time but no data was retrieved for it"))
          (.str (host.onFetchFailure connector))
      else do
        let sample := ((host.connectors.lookup ref).bind (Value.field "sample_payload")).getD
          (.dict [])
        when (ref ≠ "") (writePayload ref sample)
        let keys ← ofPy (payloadKeys sample)
        return .dict [("status", .str "ok"), ("payload_keys", keys)]

def executeTransform (step : Value) : Exec W Value := do
  let v ← view host
  let (key, result) ← ofPy (host.transform step v)
  update fun c => { c with transformOutputs := setKey c.transformOutputs key result }
  return result

def executeModel (step : Value) : Exec W Value := do
  let v ← view host
  let vars ← ctx (·.vars)
  let answer ← ask (host.model step v vars)
  let (result, written) ← ofPy answer
  match written with
  | some (name, prediction) => do
    update fun c => { c with vars := setKey c.vars name prediction }
    return result
  | none => return result

/-! ### Actions -/

/-- `_fire_action_request`, with what its failure means to the run. -/
def fireActionRequest (step : Value) (config : Dict) : Exec W Value := do
  let v ← view host
  let remaining ← budgetRemainingMs host
  let (attempts, fired) ← ask (host.fire step config v remaining)
  update fun c => { c with actionResults := c.actionResults ++ attempts }
  match fired with
  | .raised e => fail e
  | .answered result => return result
  | .failed result =>
    let onFailure := (config.lookup "onFailure").getD (.str "continue")
    if onFailure = .str "abort" then fail .actionFailed
    else if onFailure = .str "review_gate" then do
      vote host (.str "review")
      return result
    else return result

/-- The last attempt carries what the polls came to. -/
def annotateLast (results : List Value) (last : Value) : List Value := results.dropLast ++ [last]

def pollTrace (stepId status : String) (polls maxPolls : ℕ) : Value :=
  .dict [("type", .str "action_poll"), ("stepId", .str stepId), ("status", .str status),
    ("polls", .int polls), ("maxPolls", .int maxPolls)]

/-- The attempts of `_poll_action`; the first argument is how many are left. -/
def pollAttempts (step : Value) (config : Dict) (condition : Value) (stepId : String)
    (maxPolls : ℕ) : ℕ → Value → Exec W (Value × Bool)
  | 0, last => return (last, false)
  | left + 1, _ => do
    checkBudget host
    let result ← fireActionRequest host step config
    if host.pollMet condition result then do
      let polls := maxPolls - left
      let marked : Value := .dict (updateKeys (result.asDict.getD [])
        [("polls", .int polls), ("pollSatisfied", .bool true)])
      update fun c => { c with
        actionResults := annotateLast c.actionResults marked
        stepTrace := c.stepTrace ++ [pollTrace stepId "satisfied" polls maxPolls] }
      return (marked, true)
    else pollAttempts step config condition stepId maxPolls left result

def pollAction (step : Value) (config : Dict) : Exec W Value := do
  let condition := Value.orElse (config.lookup "pollUntil") ((config.lookup "until").getD .null)
  let maxPolls ← ofPy (clampPolls host.py host.maxPolls ((config.lookup "maxPolls").getD (.int 3)))
  let stepId := stepName host.py step "action"
  let (result, met) ← pollAttempts host step config condition stepId maxPolls maxPolls (.dict [])
  if met then return result
  else do
    let timedOut : Value := .dict (updateKeys (result.asDict.getD [])
      [("polls", .int maxPolls), ("pollSatisfied", .bool false), ("success", .bool false),
        ("error", .str ("poll_condition_not_met after " ++ maxPolls.repr ++ " attempt(s)"))])
    update fun c => { c with
      actionResults := annotateLast c.actionResults timedOut
      stepTrace := c.stepTrace ++ [pollTrace stepId "timeout" maxPolls maxPolls] }
    let onTimeout := (config.lookup "onPollTimeout").getD (.str "review_gate")
    if onTimeout = .str "abort" then fail .actionFailed
    else if onTimeout = .str "review_gate" then do
      vote host (.str "review")
      return timedOut
    else return timedOut

/-- The asynchronous action: it pauses the run, and takes the callback when it is back. -/
def asyncAction (step : Value) (config : Dict) : Exec W Value := do
  let stepId := stepName host.py step "action"
  let callbacks ← ctx (·.callbacks)
  match callbacks.lookup stepId with
  | some callback => do
    let result : Value := .dict [("async", .bool true), ("resumed", .bool true),
      ("callback", callback)]
    update fun c => { c with actionResults := c.actionResults ++ [result] }
    match (callback.field "outcome").filter Value.truthy with
    | some o => do
      vote host (.str (host.py.str o))
      return result
    | none => return result
  | none => do
    let url := (config.lookup "url").getD .null
    when url.truthy do
      let _ ← Prog.attempt (fireActionRequest host step config)
      return ()
    update fun c => { c with
      status := .paused
      pausedAtStep := some c.currentStepIndex
      pendingOperations := c.pendingOperations ++
        [.dict [("type", .str "async_action"), ("step_id", .str stepId), ("url", url)]] }
    let id ← ctx (·.executionId)
    return .dict [("paused", .bool true), ("awaiting", .str "callback"), ("stepId", .str stepId),
      ("executionId", .str id)]

def executeAction (step : Value) : Exec W Value := do
  let config ← ofPy (rawConfig step)
  let mode := (config.lookup "mode").getD .null
  if mode = .str "async" then asyncAction host step config
  else if mode = .str "poll" then pollAction host step config
  else fireActionRequest host step config

/-- The alert of a monitor step; its failure is only noted. -/
def monitorAlert (step : Value) (config : Dict) : Exec W Dict := do
  let url := (config.lookup "alertUrl").getD .null
  if url.truthy then do
    let sent ← Prog.attempt (fireActionRequest host step
      [("url", url), ("method", (config.lookup "method").getD (.str "POST")),
        ("headers", (config.lookup "headers").getD (.dict [])),
        ("bodyTemplate", (config.lookup "payload").getD (.dict
          [("executionId", .str "\x7b\x7bexecution_id\x7d\x7d"),
            ("outcome", .str "\x7b\x7boutcome\x7d\x7d")])),
        ("timeoutMs", (config.lookup "timeoutMs").getD (.int 5000))])
    match sent with
    | .ok _ => return [("alerted", .bool true)]
    | .error _ => return [("alertError", .null)]
  else return []

def monitorSchedule (config : Dict) : Exec W Dict := do
  let days := (config.lookup "reevaluateInDays").getD .null
  if days.truthy then do
    let id ← ctx (·.executionId)
    let recorded ← ask (host.addAuditEvent (.dict [("event_type", .str "monitor_scheduled"),
      ("entity_id", .str id), ("reevaluateInDays", days)]))
    if recorded then return [("reevaluateInDays", days), ("scheduled", .bool true)]
    else return [("scheduled", .bool false)]
  else return []

def executeMonitor (step : Value) : Exec W Value := do
  let alerted ← monitorAlert host step (stepConfig step)
  let scheduled ← monitorSchedule host (stepConfig step)
  return .dict ([("monitor", (step.field "name").getD (Value.str "monitor"))] ++ alerted ++ scheduled)

def reviewSnapshot (c : ExecutionContext) : Value :=
  .dict [("tenant_id", .str c.tenantId), ("execution_id", .str c.executionId),
    ("policy_id", .str c.policyId), ("variables", .dict c.vars),
    ("rule_results", .list c.ruleResults), ("scorecard_results", .dict c.scorecardResults),
    ("outcome_before_review", .str c.outcome)]

def executeReviewGate (step : Value) : Exec W Value := do
  let config ← ofPy (rawConfig step)
  let go ← holds host ((config.lookup "condition").getD .null)
  if !go then
    return .dict [("skipped", .bool true), ("reason", .str "Condition not met")]
  else if host.simulate then do
    vote host (.str "review")
    return .dict [("simulated", .bool true), ("outcome", .str "review")]
  else do
    let snapshot ← ctx reviewSnapshot
    let answer ← ask (host.createReviewTask step snapshot)
    let id ← ofPy answer
    update fun c => { c with
      status := .paused
      pausedAtStep := some c.currentStepIndex
      reviewTaskId := some id }
    return .dict [("paused", .bool true), ("reviewTaskId", .str id)]

/-! ### Nested steps -/

section Nested
variable (sub : List Value → Exec W Unit)

/-- `config.get(key, []) or []` as a list of steps. -/
def stepList (v : Option Value) : Except PyError (List Value) :=
  match v.filter Value.truthy with
  | none => .ok []
  | some (.list steps) => .ok steps
  | some (.str _) => .error .attributeError
  | some _ => .error .typeError

/-- The items a loop runs over: the entries of an object as pairs, a list, or nothing. -/
def loopItems : Value → List Value
  | .dict kvs => kvs.map fun kv => .dict [("key", .str kv.1), ("value", kv.2)]
  | .list vs => vs
  | _ => []

/-- `items[:n]`. -/
def pyTake (items : List Value) (n : ℤ) : List Value :=
  if 0 ≤ n then items.take n.toNat else items.take (items.length - (-n).toNat)

structure LoopConfig where
  asName : String
  indexName : String
  steps : Option Value
  concurrency : Value

/-- The entry of one iteration in the loop's result. -/
def iterationEntry (index : ℕ) (item : Value) (before after : String) (trace : List Value)
    (paused failed : Bool) : Value :=
  .dict [("index", .int index), ("item", item), ("outcome_before", .str before),
    ("outcome_after", .str after), ("steps", .list trace), ("paused", .bool paused),
    ("failed", .bool failed)]

/-- The iterations one after the other, up to a pause or a failure. -/
def loopSequential (cfg : LoopConfig) (outer : Dict) : List Value → ℕ → Exec W (List Value)
  | [], _ => return []
  | item :: items, index => do
    update fun c => { c with
      loopScope := setKey (setKey outer cfg.asName item) cfg.indexName (.int index) }
    let before ← ctx (·.outcome)
    let start ← ctx (·.stepTrace.length)
    let steps ← ofPy (stepList cfg.steps)
    sub steps
    let after ← ctx (·.outcome)
    let trace ← ctx (·.stepTrace.drop start)
    let status ← ctx (·.status)
    let entry := iterationEntry index item before after trace (status = .paused) (status = .failed)
    if status = .paused ∨ status = .failed then return [entry]
    else do
      let entries ← loopSequential cfg outer items (index + 1)
      return entry :: entries

/-- The sequential loop; the outer names are back when it ends. -/
def loopInOrder (cfg : LoopConfig) (outer : Dict) (items : List Value) : Exec W (List Value) := do
  let entries ← loopSequential sub cfg outer items 0
  update fun c => { c with loopScope := outer }
  return entries

def cloneForIteration (c : ExecutionContext) (loopScope : Dict) : ExecutionContext :=
  { c with
    ruleResults := [], scorecardResults := [], decisionTableResults := [],
    transformOutputs := [], actionResults := [], stepTrace := [], pendingOperations := [],
    loopScope := loopScope, status := .running }

/-- What an iteration of a parallel loop hands back. -/
structure ChildEffects where
  ruleResults : List Value
  actionResults : List Value
  scorecardResults : Dict
  decisionTableResults : Dict
  transformOutputs : Dict
  stepTrace : List Value
  outcome : String
  status : Status

def childEffects (c : ExecutionContext) : ChildEffects :=
  ⟨c.ruleResults, c.actionResults, c.scorecardResults, c.decisionTableResults,
    c.transformOutputs, c.stepTrace, c.outcome, c.status⟩

/-- The children of a parallel loop, each on its own clone of the context; the payload is
    one object for all of them. -/
def loopChildren (cfg : LoopConfig) (outer : Dict) :
    List Value → ℕ → Exec W (List (ℕ × Value × ChildEffects))
  | [], _ => return []
  | item :: items, index => do
    let child ← isolated
      (fun c => cloneForIteration c
        (setKey (setKey outer cfg.asName item) cfg.indexName (.int index)))
      (fun before after => { before with payload := after.payload })
      (do
        let steps ← ofPy (stepList cfg.steps)
        sub steps
        ctx childEffects)
    let children ← loopChildren cfg outer items (index + 1)
    return (index, item, child) :: children

def mergeChildren : List (ℕ × Value × ChildEffects) → Exec W (List Value)
  | [] => return []
  | (index, item, child) :: children => do
    let before ← ctx (·.outcome)
    update fun c => { c with
      ruleResults := c.ruleResults ++ child.ruleResults
      actionResults := c.actionResults ++ child.actionResults
      scorecardResults := updateKeys c.scorecardResults child.scorecardResults
      decisionTableResults := updateKeys c.decisionTableResults child.decisionTableResults
      transformOutputs := updateKeys c.transformOutputs child.transformOutputs
      stepTrace := c.stepTrace ++ child.stepTrace
      outcome := pyMergeOutcome host.py c.outcome (.str child.outcome) }
    let after ← ctx (·.outcome)
    let entries ← mergeChildren children
    return iterationEntry index item before after child.stepTrace false
      (child.status = .failed) :: entries

/-- `_run_loop_parallel`: a pause inside it is refused. -/
def loopParallel (cfg : LoopConfig) (outer : Dict) (items : List Value) : Exec W (List Value) := do
  let _ ← ofPy (loopConcurrency host.py cfg.concurrency)
  let children ← loopChildren sub cfg outer items 0
  if children.any (fun child => child.2.2.status = .paused) then fail .valueError
  else do
    let entries ← mergeChildren host children
    update fun c => { c with
      loopScope := outer
      status := if children.any (fun child => child.2.2.status = .failed) then .failed
        else c.status }
    return entries

def loopIterations (parallel : Bool) (cfg : LoopConfig) (outer : Dict) (items : List Value) :
    Exec W (List Value) :=
  if parallel = true ∧ items ≠ [] then loopParallel host sub cfg outer items
  else loopInOrder sub cfg outer items

def executeLoop (depth : ℕ) (step : Value) : Exec W Value := do
  if MAX_WORKFLOW_DEPTH ≤ depth then fail .valueError
  else do
    let config := stepConfig step
    let cfg : LoopConfig :=
      ⟨host.py.str ((config.lookup "as").getD (.str "item")),
        host.py.str ((config.lookup "indexAs").getD (.str "index")), config.lookup "steps",
        (config.lookup "concurrency").getD (.int 8)⟩
    let limit ← ofPy (maxIterations host.py ((config.lookup "maxIterations").getD (.int 1000)))
    let v ← view host
    let given := ((config.lookup "over").or (config.lookup "items")).getD .null
    let collection ← ofPy (host.resolveCollection given v)
    let items := loopItems collection
    let sliced := pyTake items limit
    let outer ← ctx (·.loopScope)
    let parallel :=
      lower (host.py.str ((config.lookup "mode").getD (.str "sequential"))) == "parallel"
    let iterations ← loopIterations host sub parallel cfg outer sliced
    return .dict [("loop", .str (stepName host.py step "loop")),
      ("over", (config.lookup "over").getD .null), ("count", .int items.length),
      ("iterations_run", .int iterations.length),
      ("truncated", .bool (limit < (items.length : ℤ))),
      ("mode", .str (if parallel then "parallel" else "sequential")),
      ("iterations", .list iterations)]

/-- `not cond or evaluate_condition(cond, view)`, for the condition of a branch. -/
def branchMatches (v branch : Value) : Except PyError Bool :=
  match branch.asDict with
  | none => .error .attributeError
  | some kvs =>
    let condition := (kvs.lookup "condition").getD .null
    if condition.truthy then host.evaluateCondition condition v else .ok true

/-- The first branch that matches runs; the view is taken once. -/
def tryBranches (v : Value) (default : Option Value) : List Value → ℕ → Exec W Value
  | [], _ => do
    let steps ← ofPy (stepList default)
    if steps = [] then return .dict [("branch", .null), ("matched", .bool false)]
    else do
      sub steps
      return .dict [("branch", .str "default"), ("matched", .bool true)]
  | branch :: branches, i => do
    let go ← ofPy (branchMatches host v branch)
    if go then do
      let steps ← ofPy (stepList (branch.field "steps"))
      sub steps
      return .dict [("branch", .int i), ("label", (branch.field "label").getD (.int i)),
        ("matched", .bool true)]
    else tryBranches v default branches (i + 1)

def executeBranch (step : Value) : Exec W Value := do
  let config := stepConfig step
  let branches ← ofPy (stepList (config.lookup "branches"))
  let v ← view host
  tryBranches host sub v (config.lookup "default") branches 0

/-- `_execute_subworkflow`: an alias, where there is one, decides which policy is meant. -/
def executeSubworkflow (depth : ℕ) (step : Value) : Exec W Value := do
  if MAX_WORKFLOW_DEPTH ≤ depth then fail .valueError
  else do
    let config := stepConfig step
    let name := Value.orElse (config.lookup "alias") ((step.field "alias").getD .null)
    let ref := if name.truthy then host.workflowAlias (host.py.str name) else stepRef host.py step
    let visited ← visited
    if ref = "" ∨ ref ∈ visited then fail .valueError
    else
      match host.policySteps ref with
      | none => fail .valueError
      | some steps => do
        visit ref
        sub steps
        let o ← ctx (·.outcome)
        return .dict ([("workflow", Value.str ref), ("outcome", Value.str o)] ++
          if name.truthy then [("alias", Value.str (host.py.str name))] else [])

/-- `_execute_step_body`; nothing for a step of an unknown type. -/
def executeStepBody (rules : Dict) (depth : ℕ) (step : Value) : Exec W (Option Value) :=
  match stepKind step with
  | .connector => some <$> executeConnector host step
  | .rule => some <$> executeRule host rules step
  | .scorecard => some <$> executeScorecard host step
  | .decisionTable => some <$> executeDecisionTable host step
  | .transform => some <$> executeTransform host step
  | .action => some <$> executeAction host step
  | .model => some <$> executeModel host step
  | .reviewGate => some <$> executeReviewGate host step
  | .outcome => some <$> executeOutcome host step
  | .loop => some <$> executeLoop host sub depth step
  | .branch => some <$> executeBranch host sub step
  | .workflow => some <$> executeSubworkflow host sub depth step
  | .monitor => some <$> executeMonitor host step
  | .unhashable | .other => return none

end Nested

/-! ### The loop over the steps -/

/-- The steps whose failure sends the decision to review. -/
def isGate : StepKind → Bool
  | .rule | .scorecard | .decisionTable | .workflow | .model => true
  | _ => false

/-- The entry of a step in the trace, without its duration and the text of its error. -/
def traceEntry (step : Value) (result : Option Value) (failed : Bool) : Value :=
  .dict [("step", step), ("result", result.getD .null), ("failed", .bool failed)]

def trace (entry : Value) : Exec W Unit :=
  update fun c => { c with stepTrace := c.stepTrace ++ [entry] }

/-- One turn of the loop; the answer is whether to go on. -/
def runStep (body : Value → Exec W (Option Value)) (depth index : ℕ) (step : Value) :
    Exec W Bool := do
  when step.asDict.isNone (fail .attributeError)
  checkBudget host
  when (depth = 0) (update fun c => { c with currentStepIndex := index })
  if depth = 0 ∧ host.debugStopBefore.any (· ≤ index) then do
    update fun c => { c with status := .paused, pausedAtStep := some index }
    return false
  else do
    let config := stepConfig step
    let condition := (config.lookup "condition").getD .null
    let go ← holds host condition
    if !go then do
      trace (.dict [("step", step), ("skipped", .bool true), ("condition", condition)])
      return true
    else do
      let answer ← Prog.attempt (body step)
      match answer with
      | .ok result => do
        trace (traceEntry step result false)
        let status ← ctx (·.status)
        return status ≠ .paused ∧ status ≠ .failed
      | .error .budgetExceeded => Prog.raise .budgetExceeded
      | .error (.error _) => do
        when (isGate (stepKind step)) (vote host (.str "review"))
        when (config.lookup "onFailure" = some (.str "abort"))
          (update fun c => { c with status := .failed })
        trace (traceEntry step none true)
        let status ← ctx (·.status)
        return status ≠ .failed

def runFrom (body : Value → Exec W (Option Value)) (depth : ℕ) : List Value → ℕ → Exec W Unit
  | [], _ => return ()
  | step :: steps, index => do
    let go ← runStep host body depth index step
    if go then runFrom body depth steps (index + 1) else return ()

/-- `_run_steps`; the first argument is how many frames the interpreter still allows. -/
def runSteps (rules : Dict) : ℕ → List Value → ℕ → ℕ → Exec W Unit
  | 0, _, _, _ => fail .recursionError
  | frames + 1, steps, depth, start =>
    runFrom host
      (executeStepBody host (fun nested => runSteps rules frames nested (depth + 1) 0) rules depth)
      depth (steps.drop start) start

end Steps

end RuleMind
