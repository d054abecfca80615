/-
  `ExecutionContext` of `app/executor.py`: the state of one run, what a paused run
  is saved as (`to_dict`) and what comes back (`from_dict`).

  Instants are microseconds; a saved one is a text to the second (`Calendar`, the
  standard library's reading and writing of it).
-/
import RuleMind.Value

namespace RuleMind

/-- `isoformat` and `fromisoformat` on whole seconds. -/
structure Calendar where
  isoformat : ℕ → String
  fromisoformat : String → ℕ
  reads_back : ∀ s, fromisoformat (isoformat s) = s
  ne_empty : ∀ s, isoformat s ≠ ""

inductive Status
  | running
  | paused
  | failed
  | completed
  deriving DecidableEq, Repr

namespace Status

def text : Status → String
  | .running => "running"
  | .paused => "paused"
  | .failed => "failed"
  | .completed => "completed"

/-- The status a saved text names; the code writes no others. -/
def ofText (s : String) : Status :=
  if s = "paused" then .paused
  else if s = "failed" then .failed
  else if s = "completed" then .completed
  else .running

theorem ofText_text (st : Status) : ofText st.text = st := by cases st <;> decide

end Status

structure ExecutionContext where
  payload : Value
  tenantId : String
  policyId : String
  executionId : String
  userId : Value
  decisionId : Option String
  vars : Dict
  variableErrors : List (String × String)
  ruleResults : List Value
  scorecardResults : Dict
  decisionTableResults : Dict
  transformOutputs : Dict
  actionResults : List Value
  sourceFetches : List Value
  sourceFetchErrors : Dict
  loopScope : Dict
  pendingOperations : List Value
  outcome : String
  status : Status
  currentStepIndex : ℕ
  pausedAtStep : Option ℕ
  reviewTaskId : Option String
  reviewResponse : Dict
  callbacks : Dict
  experimentId : Option String
  experimentVariant : Option String
  stepTrace : List Value
  startedAt : ℕ
  completedAt : Option ℕ
  totalLatencyMs : ℤ
  budgetMs : ℕ
  deadline : Option ℕ

/-! ### Saving -/

/-- `None`, or the text. -/
def optStr : Option String → Value
  | none => .null
  | some s => .str s

def optNat : Option ℕ → Value
  | none => .null
  | some n => .int n

namespace ExecutionContext
variable (cal : Calendar)

def saveInstant (t : ℕ) : Value := .str (cal.isoformat (t / 1000000))

def toDict (ctx : ExecutionContext) : Value :=
  .dict [
    ("payload", ctx.payload),
    ("tenant_id", .str ctx.tenantId),
    ("policy_id", .str ctx.policyId),
    ("execution_id", .str ctx.executionId),
    ("user_id", ctx.userId),
    ("decision_id", optStr ctx.decisionId),
    ("variables", .dict ctx.vars),
    ("variable_errors", .dict (ctx.variableErrors.map fun e => (e.1, .str e.2))),
    ("rule_results", .list ctx.ruleResults),
    ("scorecard_results", .dict ctx.scorecardResults),
    ("decision_table_results", .dict ctx.decisionTableResults),
    ("transform_outputs", .dict ctx.transformOutputs),
    ("action_results", .list ctx.actionResults),
    ("source_fetches", .list ctx.sourceFetches),
    ("source_fetch_errors", .dict ctx.sourceFetchErrors),
    ("loop_scope", .dict ctx.loopScope),
    ("pending_operations", .list ctx.pendingOperations),
    ("outcome", .str ctx.outcome),
    ("status", .str ctx.status.text),
    ("current_step_index", .int ctx.currentStepIndex),
    ("paused_at_step", optNat ctx.pausedAtStep),
    ("review_task_id", optStr ctx.reviewTaskId),
    ("review_response", .dict ctx.reviewResponse),
    ("callbacks", .dict ctx.callbacks),
    ("experiment_id", optStr ctx.experimentId),
    ("experiment_variant", optStr ctx.experimentVariant),
    ("step_trace", .list ctx.stepTrace),
    ("started_at", saveInstant cal ctx.startedAt),
    ("completed_at", (ctx.completedAt.map (saveInstant cal)).getD .null),
    ("total_latency_ms", .int ctx.totalLatencyMs),
    ("budget_ms", .int ctx.budgetMs),
    ("deadline", optNat ctx.deadline)]

def asNat : Value → Option ℕ
  | .int n => some n.toNat
  | _ => none

def asInt : Value → Option ℤ
  | .int n => some n
  | _ => none

/-- `_datetime_from_iso`. -/
def readInstant (v : Value) : Option ℕ :=
  (v.asStr.filter (· ≠ "")).map fun s => cal.fromisoformat s * 1000000

/-- `from_dict`; `utcnow` is what the clock says where no start was saved. -/
def fromDict (utcnow : ℕ) (saved : Value) : ExecutionContext :=
  let get (key : String) : Value := (saved.field key).getD .null
  let dict (key : String) : Dict := ((saved.field key).bind Value.asDict).getD []
  let list (key : String) : List Value := ((saved.field key).bind Value.asList).getD []
  let text (key default : String) : String := ((saved.field key).bind Value.asStr).getD default
  { payload := (saved.field "payload").getD (.dict [])
    tenantId := text "tenant_id" ""
    policyId := text "policy_id" ""
    executionId := text "execution_id" ""
    userId := get "user_id"
    decisionId := none
    vars := dict "variables"
    variableErrors := []
    ruleResults := list "rule_results"
    scorecardResults := dict "scorecard_results"
    decisionTableResults := dict "decision_table_results"
    transformOutputs := dict "transform_outputs"
    actionResults := list "action_results"
    sourceFetches := list "source_fetches"
    sourceFetchErrors := dict "source_fetch_errors"
    loopScope := dict "loop_scope"
    pendingOperations := list "pending_operations"
    outcome := text "outcome" "pending"
    status := Status.ofText (text "status" "running")
    currentStepIndex := ((saved.field "current_step_index").bind asNat).getD 0
    pausedAtStep := asNat (get "paused_at_step")
    reviewTaskId := (get "review_task_id").asStr
    reviewResponse := dict "review_response"
    callbacks := dict "callbacks"
    experimentId := (get "experiment_id").asStr
    experimentVariant := (get "experiment_variant").asStr
    stepTrace := list "step_trace"
    startedAt := (readInstant cal (get "started_at")).getD utcnow
    completedAt := readInstant cal (get "completed_at")
    totalLatencyMs := ((saved.field "total_latency_ms").bind asInt).getD 0
    budgetMs := 0
    deadline := none }

def toSecond (t : ℕ) : ℕ := t / 1000000 * 1000000

theorem readInstant_saveInstant (t : ℕ) :
    readInstant cal (saveInstant cal t) = some (toSecond t) := by
  simp [readInstant, saveInstant, Value.asStr, cal.ne_empty, cal.reads_back, toSecond]

theorem asNat_optNat (n : Option ℕ) : asNat (optNat n) = n := by cases n <;> simp [optNat, asNat]

theorem asStr_optStr (s : Option String) : (optStr s).asStr = s := by cases s <;> rfl

def reloaded (ctx : ExecutionContext) : ExecutionContext :=
  { ctx with
    decisionId := none
    variableErrors := []
    startedAt := toSecond ctx.startedAt
    completedAt := ctx.completedAt.map toSecond
    budgetMs := 0
    deadline := none }

theorem fromDict_toDict (utcnow : ℕ) (ctx : ExecutionContext) :
    fromDict cal utcnow (toDict cal ctx) = ctx.reloaded := by
  have hcompleted : readInstant cal ((ctx.completedAt.map (saveInstant cal)).getD .null) =
      ctx.completedAt.map toSecond := by
    cases ctx.completedAt with
    | none => rfl
    | some t => exact readInstant_saveInstant cal t
  unfold fromDict reloaded
  rw [ExecutionContext.mk.injEq]
  refine ⟨rfl, rfl, rfl, rfl, rfl, rfl, rfl, rfl, rfl, rfl, rfl, rfl, rfl, rfl, rfl, rfl, rfl, rfl,
    Status.ofText_text _, rfl, asNat_optNat _, asStr_optStr _, rfl, rfl, asStr_optStr _,
    asStr_optStr _, rfl, ?_, hcompleted, rfl, rfl, rfl⟩
  exact congrArg (Option.getD · utcnow) (readInstant_saveInstant cal ctx.startedAt)

end ExecutionContext

end RuleMind
