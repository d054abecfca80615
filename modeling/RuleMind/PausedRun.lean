/-
  A run that pauses: `execute` from a saved context, and what the save may change.

  A paused context is written with `to_dict` and read back with `from_dict`; a
  reviewer, a callback or a timeout then edits it and `execute` goes on.  Which
  fields a step can see is proved once, over all step types and nestings
  (`runSteps_twin`): two contexts that differ in what a save forgets run alike up
  to the guards at the end, and only one guard reads what is forgotten.
-/
import RuleMind.Executor

namespace RuleMind

open Exec

section Execute
variable {W : Type} (host : Host W)

/-! ### `execute` -/

def startBudget : Exec W Unit := do
  let now ← ask host.now
  update fun c => { c with
    budgetMs := host.evaluationBudgetMs
    deadline := if host.evaluationBudgetMs = 0 then none
      else some (now + host.evaluationBudgetMs * 1000) }

def subject (c : ExecutionContext) : Value :=
  Value.orElse (some c.userId) ((c.payload.field "user_id").getD .null)

def assign : Exec W (Option Assignment) := do
  let who ← ctx subject
  match host.assignment who with
  | some a => do
    update fun c => { c with experimentId := some a.experimentId, experimentVariant := a.variant }
    return some a
  | none => return none

/-- A source that is not to be done without could not be fetched. -/
def fetchFailed (errors : Dict) : Bool :=
  errors.any fun e => (e.2.field "on_failure").getD .null ≠ .str "continue"

def guardEntry (type : String) (original : String) : Value :=
  .dict [("type", .str type), ("status", .str "failed_closed"), ("outcome", .str "review"),
    ("original_outcome", .str original)]

/-- The outcome becomes review, and the trace says so. -/
def sendToReview (type : String) : Exec W Unit :=
  update fun c => { c with
    outcome := "review"
    stepTrace := c.stepTrace ++ [guardEntry type c.outcome] }

def failClosedOnFetchErrors : Exec W Unit := do
  let failed ← ctx fun c => fetchFailed c.sourceFetchErrors
  let o ← ctx (·.outcome)
  when (failed = true ∧ o ≠ "review") (sendToReview "source_fetch_guard")

def failClosedOnVariableErrors : Exec W Unit := do
  let failed ← ctx fun c => !c.variableErrors.isEmpty
  let o ← ctx (·.outcome)
  when (failed = true ∧ host.failOpenOnVariableError = false ∧ o ≠ "review")
    (sendToReview "variable_error_guard")

/-- The instants of a finished run, and its decision id. -/
def complete : Exec W Unit := do
  let now ← ask host.now
  update fun c => { c with
    completedAt := some now
    totalLatencyMs := Int.tdiv (now - c.startedAt) 1000 }
  when (host.simulate = false) do
    let id ← ask host.uuid
    update fun c => { c with decisionId := some id }

def finish : Exec W Unit := do
  let status ← ctx (·.status)
  if status = .paused then return ()
  else do
    when (status = .running) (update fun c => { c with status := .completed })
    failClosedOnFetchErrors
    failClosedOnVariableErrors host
    complete host

def runPolicy (frames : ℕ) (steps : List Value) : Exec W Unit := do
  let a ← assign host
  let start ← ctx (·.currentStepIndex)
  let id ← ctx (·.policyId)
  Prog.modify fun r => { r with visited := [id] }
  runSteps host (host.rules a) frames steps 0 start

/-- The run up to a pause, or to the end of its steps. -/
def advance (frames : ℕ) (steps : List Value) : Exec W Unit := do
  update fun c => { c with status := .running }
  startBudget host
  runPolicy host frames steps

/-- `execute` on a context whose variables are computed: the first time, or resumed. -/
def execute (frames : ℕ) (steps : List Value) : Exec W Unit := do
  advance host frames steps
  finish host

/-! ### Resuming -/

/-- What is done to a paused context before it goes on. -/
inductive Resume
  | review (approve : Bool) (response : Dict)
  | timeout (onTimeout : Value)
  | callback (stepId : String) (data : Value)
  | plain

def applyResume (c : ExecutionContext) : Resume → ExecutionContext
  | .review approve response =>
    { c with
      outcome := if approve then "approve" else "reject"
      reviewResponse := response
      vars := updateKeys c.vars response
      currentStepIndex := c.pausedAtStep.getD 0 + 1 }
  | .timeout onTimeout =>
    { c with
      outcome := host.py.str onTimeout
      currentStepIndex := c.pausedAtStep.getD 0 + 1 }
  | .callback stepId data =>
    { c with
      callbacks := setKey c.callbacks stepId data
      currentStepIndex := c.pausedAtStep.getD 0 }
  | .plain => c

/-- A run through its pauses.  Each comes with how it is resumed and with what the world
    is by then; `reload` is what the pause leaves of the context. -/
def continueRun (reload : ExecutionContext → ExecutionContext) (frames : ℕ) (steps : List Value) :
    List (Resume × (W → W)) → Run W → Except Raised (Run W)
  | [], r => .ok r
  | (resume, later) :: rest, r =>
    if r.ctx.status = .paused then
      match execute host frames steps
        { r with ctx := applyResume host (reload r.ctx) resume, world := later r.world } with
      | (.ok (), r') => continueRun reload frames steps rest r'
      | (.error e, _) => .error e
    else .ok r

def wholeRun (reload : ExecutionContext → ExecutionContext) (frames : ℕ) (steps : List Value)
    (resumes : List (Resume × (W → W))) (r : Run W) : Except Raised (Run W) :=
  match execute host frames steps r with
  | (.ok (), r') => continueRun host reload frames steps resumes r'
  | (.error e, _) => .error e

/-- A save and a reload, at the instant `utcnow`. -/
def saved (utcnow : ℕ) (c : ExecutionContext) : ExecutionContext :=
  ExecutionContext.fromDict host.calendar utcnow (c.toDict host.calendar)

end Execute

/-! ### What a save forgets -/

/-- The context without what a save forgets, and without what only the end of a run writes. -/
def blank (c : ExecutionContext) : ExecutionContext :=
  { c with
    decisionId := none
    variableErrors := []
    startedAt := 0
    completedAt := none
    totalLatencyMs := 0 }

/-- Two runs that differ in what a save forgets: variable errors `v` on one side, `w` on
    the other, and the same source errors `e`. -/
structure Twin {W : Type} (v w : List (String × String)) (e : Dict) (s t : Run W) : Prop where
  same : blank s.ctx = blank t.ctx
  visited : s.visited = t.visited
  world : s.world = t.world
  left : s.ctx.variableErrors = v
  right : t.ctx.variableErrors = w
  fetch : s.ctx.sourceFetchErrors = e

/-- A change of the context that neither reads nor writes what a save forgets. -/
structure Keeps (f : ExecutionContext → ExecutionContext) : Prop where
  blind : ∀ c, blank (f c) = blank (f (blank c))
  variableErrors : ∀ c, (f c).variableErrors = c.variableErrors
  sourceFetchErrors : ∀ c, (f c).sourceFetchErrors = c.sourceFetchErrors

section Twins
variable {W : Type} (host : Host W) {v w : List (String × String)} {e : Dict}

open Prog (Respects)

variable {α : Type}

variable {f : ExecutionContext → α} {s t : Run W} {body : Value → Exec W (Option Value)}

theorem Twin.field (h : Twin v w e s t) (hf : ∀ c, f c = f (blank c)) : f s.ctx = f t.ctx := by
  rw [hf s.ctx, hf t.ctx, h.same]

theorem twin_ctx (hf : ∀ c, f c = f (blank c)) : Respects (Twin v w e) (ctx f : Exec W α) :=
  .gets fun _ _ h => h.field hf

theorem Twin.update {f : ExecutionContext → ExecutionContext} (hf : Keeps f) (h : Twin v w e s t) :
    Twin v w e { s with ctx := f s.ctx } { t with ctx := f t.ctx } where
  same := by rw [hf.blind s.ctx, hf.blind t.ctx, h.same]
  visited := h.visited
  world := h.world
  left := (hf.variableErrors _).trans h.left
  right := (hf.variableErrors _).trans h.right
  fetch := (hf.sourceFetchErrors _).trans h.fetch

theorem twin_update {f : ExecutionContext → ExecutionContext} (hf : Keeps f) :
    Respects (Twin v w e) (update f : Exec W Unit) :=
  .modify fun _ _ h => h.update hf

theorem twin_ask (f : W → α × W) : Respects (Twin v w e) (ask f : Exec W α) :=
  .step fun _ _ h => by
    rw [h.world]
    exact ⟨rfl, h.same, h.visited, rfl, h.left, h.right, h.fetch⟩

theorem twin_when {p : Prop} [Decidable p] {m : Exec W Unit} (hm : Respects (Twin v w e) m) :
    Respects (Twin v w e) (when p m) :=
  .ite hm (.pure ())

theorem twin_fail (x : PyError) : Respects (Twin v w e) (fail x : Exec W α) := .raise _

theorem twin_ofPy (x : Except PyError α) : Respects (Twin v w e) (ofPy x : Exec W α) := .ofExcept _

theorem twin_view : Respects (Twin v w e) (view host) := twin_ctx fun _ => rfl

theorem twin_budget : Respects (Twin v w e) (budgetRemainingMs host) :=
  .bind (twin_ask _) fun _ => .bind (twin_ctx fun _ => rfl) fun _ => .pure _

theorem twin_checkBudget : Respects (Twin v w e) (checkBudget host) :=
  .bind (twin_budget host) fun _ => .ite (.raise _) (.pure _)

theorem twin_holds (condition : Value) : Respects (Twin v w e) (holds host condition) :=
  .bind (twin_view host) fun _ => .ite (twin_ofPy _) (.pure _)

theorem twin_vote (candidate : Value) : Respects (Twin v w e) (vote host candidate) :=
  twin_update ⟨fun _ => rfl, fun _ => rfl, fun _ => rfl⟩

theorem twin_trace (entry : Value) : Respects (Twin v w e) (trace entry : Exec W Unit) :=
  twin_update ⟨fun _ => rfl, fun _ => rfl, fun _ => rfl⟩

theorem twin_voted (candidate result : Value) :
    Respects (Twin v w e) (do vote host candidate; return result : Exec W Value) :=
  .bind (twin_vote host _) fun _ => .pure _

/-! ### No step sees it -/

theorem twin_rule (rules : Dict) (step : Value) :
    Respects (Twin v w e) (executeRule host rules step) := by
  unfold executeRule
  dsimp only
  split
  · exact twin_fail _
  · refine .bind (twin_ctx fun _ => rfl) fun vars => .bind (twin_ofPy _) fun result => ?_
    exact .bind (twin_update ⟨fun _ => rfl, fun _ => rfl, fun _ => rfl⟩) fun _ =>
      twin_voted host _ _

theorem twin_decisionTable (step : Value) :
    Respects (Twin v w e) (executeDecisionTable host step) := by
  unfold executeDecisionTable
  dsimp only
  split
  · exact twin_fail _
  · refine .bind (twin_ctx fun _ => rfl) fun vars => .bind (twin_ofPy _) fun result =>
      .bind (twin_update ⟨fun _ => rfl, fun _ => rfl, fun _ => rfl⟩) fun _ => ?_
    split
    · exact twin_voted host _ _
    · exact .pure _

theorem twin_scorecard (step : Value) : Respects (Twin v w e) (executeScorecard host step) := by
  unfold executeScorecard
  dsimp only
  split
  · exact twin_fail _
  · exact .bind (twin_ctx fun _ => rfl) fun vars => .bind (twin_ofPy _) fun result =>
      .bind (twin_update ⟨fun _ => rfl, fun _ => rfl, fun _ => rfl⟩) fun _ => .pure _

theorem twin_outcome (step : Value) : Respects (Twin v w e) (executeOutcome host step) :=
  .bind (twin_vote host _) fun _ => .bind (twin_ctx fun _ => rfl) fun _ => .pure _

theorem twin_writePayload (ref : String) (sample : Value) :
    Respects (Twin v w e) (writePayload ref sample : Exec W Unit) := by
  refine .bind (twin_ctx fun _ => rfl) fun payload => ?_
  split
  · exact twin_update ⟨fun _ => rfl, fun _ => rfl, fun _ => rfl⟩
  · exact twin_fail _

theorem twin_connector (step : Value) : Respects (Twin v w e) (executeConnector host step) := by
  unfold executeConnector
  dsimp only
  refine .bind (twin_ctx fun _ => rfl) fun errors => ?_
  split
  · exact .pure _
  · refine .bind (twin_ctx fun _ => rfl) fun payload => ?_
    split
    · exact .bind (twin_ofPy _) fun _ => .pure _
    · exact .ite (.pure _) (.bind (twin_when (twin_writePayload _ _)) fun _ =>
        .bind (twin_ofPy _) fun _ => .pure _)

theorem twin_transform (step : Value) : Respects (Twin v w e) (executeTransform host step) :=
  .bind (twin_view host) fun _ => .bind (twin_ofPy _) fun ⟨_, _⟩ =>
    .bind (twin_update ⟨fun _ => rfl, fun _ => rfl, fun _ => rfl⟩) fun _ => .pure _

theorem twin_model (step : Value) : Respects (Twin v w e) (executeModel host step) := by
  unfold executeModel
  refine .bind (twin_view host) fun _ => .bind (twin_ctx fun _ => rfl) fun _ =>
    .bind (twin_ask _) fun _ => .bind (twin_ofPy _) fun ⟨result, written⟩ => ?_
  cases written with
  | none => exact .pure _
  | some p => exact .bind (twin_update ⟨fun _ => rfl, fun _ => rfl, fun _ => rfl⟩) fun _ => .pure _

theorem twin_fire (step : Value) (config : Dict) :
    Respects (Twin v w e) (fireActionRequest host step config) := by
  unfold fireActionRequest
  refine .bind (twin_view host) fun _ => .bind (twin_budget host) fun _ =>
    .bind (twin_ask _) fun ⟨attempts, fired⟩ =>
    .bind (twin_update ⟨fun _ => rfl, fun _ => rfl, fun _ => rfl⟩) fun _ => ?_
  cases fired with
  | raised x => exact twin_fail _
  | answered result => exact .pure _
  | failed result => exact .ite (twin_fail _) (.ite (twin_voted host _ _) (.pure _))

theorem twin_pollAttempts (step : Value) (config : Dict) (condition : Value) (stepId : String)
    (maxPolls left : ℕ) (last : Value) :
    Respects (Twin v w e) (pollAttempts host step config condition stepId maxPolls left last) := by
  induction left generalizing last with
  | zero => exact .pure _
  | succ left ih =>
    refine .bind (twin_checkBudget host) fun _ => .bind (twin_fire host step config) fun result =>
      .ite (.bind (twin_update ?_) fun _ => .pure _) (ih result)
    exact ⟨fun _ => rfl, fun _ => rfl, fun _ => rfl⟩

theorem twin_poll (step : Value) (config : Dict) :
    Respects (Twin v w e) (pollAction host step config) := by
  unfold pollAction
  dsimp only
  refine .bind (twin_ofPy _) fun maxPolls => .bind (twin_pollAttempts host step config _ _ _ _ _)
    fun ⟨result, met⟩ => .ite (.pure _) (.bind (twin_update ?_) fun _ => ?_)
  · exact ⟨fun _ => rfl, fun _ => rfl, fun _ => rfl⟩
  · exact .ite (twin_fail _) (.ite (twin_voted host _ _) (.pure _))

theorem twin_async (step : Value) (config : Dict) :
    Respects (Twin v w e) (asyncAction host step config) := by
  unfold asyncAction
  dsimp only
  refine .bind (twin_ctx fun _ => rfl) fun callbacks => ?_
  split
  · refine .bind (twin_update ⟨fun _ => rfl, fun _ => rfl, fun _ => rfl⟩) fun _ => ?_
    split
    · exact twin_voted host _ _
    · exact .pure _
  · refine .bind (twin_when (.bind (.attempt (twin_fire host step config)) fun _ => .pure _))
      fun _ => .bind (twin_update ⟨fun _ => rfl, fun _ => rfl, fun _ => rfl⟩) fun _ => ?_
    exact .bind (twin_ctx fun _ => rfl) fun _ => .pure _

theorem twin_action (step : Value) : Respects (Twin v w e) (executeAction host step) :=
  .bind (twin_ofPy _) fun config =>
    .ite (twin_async host step config) (.ite (twin_poll host step config) (twin_fire host step config))

theorem twin_monitor (step : Value) : Respects (Twin v w e) (executeMonitor host step) := by
  refine .bind (.ite ?_ (.pure _)) fun _ => .bind (.ite ?_ (.pure _)) fun _ => .pure _
  · refine .bind (.attempt (twin_fire host step _)) fun sent => ?_
    cases sent <;> exact .pure _
  · exact .bind (twin_ctx fun _ => rfl) fun _ => .bind (twin_ask _) fun _ =>
      .ite (.pure _) (.pure _)

theorem twin_reviewGate (step : Value) : Respects (Twin v w e) (executeReviewGate host step) := by
  unfold executeReviewGate
  refine .bind (twin_ofPy _) fun config => .bind (twin_holds host _) fun go =>
    .ite (.pure _) (.ite (twin_voted host _ _) ?_)
  exact .bind (twin_ctx fun _ => rfl) fun _ => .bind (twin_ask _) fun _ =>
    .bind (twin_ofPy _) fun _ =>
    .bind (twin_update ⟨fun _ => rfl, fun _ => rfl, fun _ => rfl⟩) fun _ => .pure _

/-! ### Nor do nested steps -/

section Nested
variable {sub : List Value → Exec W Unit}

theorem twin_loopSequential (hsub : ∀ steps, Respects (Twin v w e) (sub steps)) (cfg : LoopConfig)
    (outer : Dict) (items : List Value) (index : ℕ) :
    Respects (Twin v w e) (loopSequential sub cfg outer items index) := by
  induction items generalizing index with
  | nil => exact .pure _
  | cons item items ih =>
    refine .bind (twin_update ⟨fun _ => rfl, fun _ => rfl, fun _ => rfl⟩) fun _ =>
      .bind (twin_ctx fun _ => rfl) fun before => .bind (twin_ctx fun _ => rfl) fun start =>
      .bind (twin_ofPy _) fun steps => .bind (hsub steps) fun _ =>
      .bind (twin_ctx fun _ => rfl) fun after => .bind (twin_ctx fun _ => rfl) fun trace =>
      .bind (twin_ctx fun _ => rfl) fun status => .ite (.pure _) ?_
    exact .bind (ih (index + 1)) fun _ => .pure _

theorem twin_isolated {α : Type} {enter : ExecutionContext → ExecutionContext} {m : Exec W α}
    (henter : Keeps enter) (hm : Respects (Twin v w e) m) :
    Respects (Twin v w e)
      (isolated enter (fun before after => { before with payload := after.payload }) m) := by
  refine .bracket (fun s t h => h.update henter) hm fun s t s' t' h h' => ?_
  have hpayload : s'.ctx.payload = t'.ctx.payload := h'.field fun _ => rfl
  have hsame : blank { s.ctx with payload := s'.ctx.payload } =
      blank { t.ctx with payload := t'.ctx.payload } := by
    rw [hpayload]
    exact congrArg (fun c => { c with payload := t'.ctx.payload }) h.same
  exact ⟨hsame, h'.visited, h'.world, h.left, h.right, h.fetch⟩

theorem twin_loopChildren (hsub : ∀ steps, Respects (Twin v w e) (sub steps)) (cfg : LoopConfig)
    (outer : Dict) (items : List Value) (index : ℕ) :
    Respects (Twin v w e) (loopChildren sub cfg outer items index) := by
  induction items generalizing index with
  | nil => exact .pure _
  | cons item items ih =>
    refine .bind (twin_isolated ⟨fun _ => rfl, fun _ => rfl, fun _ => rfl⟩ ?_) fun child =>
      .bind (ih (index + 1)) fun _ => .pure _
    exact .bind (twin_ofPy _) fun steps => .bind (hsub steps) fun _ => twin_ctx fun _ => rfl

theorem twin_mergeChildren (children : List (ℕ × Value × ChildEffects)) :
    Respects (Twin v w e) (mergeChildren host children) := by
  induction children with
  | nil => exact .pure _
  | cons child children ih =>
    obtain ⟨index, item, child⟩ := child
    exact .bind (twin_ctx fun _ => rfl) fun before =>
      .bind (twin_update ⟨fun _ => rfl, fun _ => rfl, fun _ => rfl⟩) fun _ =>
      .bind (twin_ctx fun _ => rfl) fun after => .bind ih fun _ => .pure _

theorem twin_loopIterations (hsub : ∀ steps, Respects (Twin v w e) (sub steps)) (parallel : Bool)
    (cfg : LoopConfig) (outer : Dict) (items : List Value) :
    Respects (Twin v w e) (loopIterations host sub parallel cfg outer items) := by
  refine .ite (.bind (twin_ofPy _) fun _ => .bind (twin_loopChildren hsub cfg outer items 0)
    fun children => ?_) ?_
  · exact .ite (twin_fail _) (.bind (twin_mergeChildren host children) fun _ =>
      .bind (twin_update ⟨fun _ => rfl, fun _ => rfl, fun _ => rfl⟩) fun _ => .pure _)
  · exact .bind (twin_loopSequential hsub cfg outer items 0) fun _ =>
      .bind (twin_update ⟨fun _ => rfl, fun _ => rfl, fun _ => rfl⟩) fun _ => .pure _

theorem twin_loop (hsub : ∀ steps, Respects (Twin v w e) (sub steps)) (depth : ℕ) (step : Value) :
    Respects (Twin v w e) (executeLoop host sub depth step) := by
  refine .ite (twin_fail _) (.bind (twin_ofPy _) fun limit => .bind (twin_view host) fun view =>
    .bind (twin_ofPy _) fun collection => .bind (twin_ctx fun _ => rfl) fun outer => ?_)
  exact .bind (twin_loopIterations host hsub _ _ _ _) fun _ => .pure _

theorem twin_branches (hsub : ∀ steps, Respects (Twin v w e) (sub steps)) (view : Value)
    (default : Option Value) (branches : List Value) (i : ℕ) :
    Respects (Twin v w e) (tryBranches host sub view default branches i) := by
  induction branches generalizing i with
  | nil =>
    exact .bind (twin_ofPy _) fun steps => .ite (.pure _) (.bind (hsub steps) fun _ => .pure _)
  | cons branch branches ih =>
    refine .bind (twin_ofPy _) fun go => .ite ?_ (ih (i + 1))
    exact .bind (twin_ofPy _) fun steps => .bind (hsub steps) fun _ => .pure _

theorem twin_branch (hsub : ∀ steps, Respects (Twin v w e) (sub steps)) (step : Value) :
    Respects (Twin v w e) (executeBranch host sub step) :=
  .bind (twin_ofPy _) fun branches => .bind (twin_view host) fun view =>
    twin_branches host hsub view _ branches 0

theorem twin_subworkflow (hsub : ∀ steps, Respects (Twin v w e) (sub steps)) (depth : ℕ)
    (step : Value) : Respects (Twin v w e) (executeSubworkflow host sub depth step) := by
  have hvisited : Respects (Twin v w e) (visited : Exec W (List String)) :=
    .gets fun _ _ h => h.visited
  have hvisit : ∀ id, Respects (Twin v w e) (visit id : Exec W Unit) := fun id =>
    .modify fun s t h => ⟨h.same, congrArg (id :: ·) h.visited, h.world, h.left, h.right, h.fetch⟩
  refine .ite (twin_fail _) (.bind hvisited fun seen => .ite (twin_fail _) ?_)
  split
  · exact twin_fail _
  · exact .bind (hvisit _) fun _ => .bind (hsub _) fun _ =>
      .bind (twin_ctx fun _ => rfl) fun _ => .pure _

theorem twin_stepBody (hsub : ∀ steps, Respects (Twin v w e) (sub steps)) (rules : Dict)
    (depth : ℕ) (step : Value) :
    Respects (Twin v w e) (executeStepBody host sub rules depth step) := by
  have hmap : ∀ {m : Exec W Value}, Respects (Twin v w e) m →
      Respects (Twin v w e) (some <$> m) := fun hm => .bind hm fun _ => .pure _
  unfold executeStepBody
  cases stepKind step with
  | connector => exact hmap (twin_connector host step)
  | rule => exact hmap (twin_rule host rules step)
  | scorecard => exact hmap (twin_scorecard host step)
  | decisionTable => exact hmap (twin_decisionTable host step)
  | transform => exact hmap (twin_transform host step)
  | action => exact hmap (twin_action host step)
  | model => exact hmap (twin_model host step)
  | reviewGate => exact hmap (twin_reviewGate host step)
  | outcome => exact hmap (twin_outcome host step)
  | loop => exact hmap (twin_loop host hsub depth step)
  | branch => exact hmap (twin_branch host hsub step)
  | workflow => exact hmap (twin_subworkflow host hsub depth step)
  | monitor => exact hmap (twin_monitor host step)
  | unhashable => exact .pure _
  | other => exact .pure _

end Nested

theorem twin_runStep
    (hbody : ∀ step, Respects (Twin v w e) (body step)) (depth index : ℕ) (step : Value) :
    Respects (Twin v w e) (runStep host body depth index step) := by
  refine .bind (twin_when (twin_fail _)) fun _ => .bind (twin_checkBudget host) fun _ =>
    .bind (twin_when (twin_update ⟨fun _ => rfl, fun _ => rfl, fun _ => rfl⟩)) fun _ => .ite ?_ ?_
  · exact .bind (twin_update ⟨fun _ => rfl, fun _ => rfl, fun _ => rfl⟩) fun _ => .pure _
  · refine .bind (twin_holds host _) fun go => .ite (.bind (twin_trace _) fun _ => .pure _) ?_
    refine .bind (.attempt (hbody step)) fun answer => ?_
    match answer with
    | .ok result => exact .bind (twin_trace _) fun _ => .bind (twin_ctx fun _ => rfl) fun _ => .pure _
    | .error .budgetExceeded => exact .raise _
    | .error (.error x) =>
      exact .bind (twin_when (twin_vote host _)) fun _ =>
        .bind (twin_when (twin_update ⟨fun _ => rfl, fun _ => rfl, fun _ => rfl⟩)) fun _ =>
        .bind (twin_trace _) fun _ => .bind (twin_ctx fun _ => rfl) fun _ => .pure _

theorem twin_runFrom
    (hbody : ∀ step, Respects (Twin v w e) (body step)) (depth : ℕ) (steps : List Value)
    (index : ℕ) : Respects (Twin v w e) (runFrom host body depth steps index) := by
  induction steps generalizing index with
  | nil => exact .pure _
  | cons step steps ih =>
    exact .bind (twin_runStep host hbody depth index step) fun go => .ite (ih (index + 1)) (.pure _)

theorem runSteps_twin (rules : Dict) (frames : ℕ) (steps : List Value) (depth start : ℕ) :
    Respects (Twin v w e) (runSteps host rules frames steps depth start) := by
  induction frames generalizing steps depth start with
  | zero => exact twin_fail _
  | succ frames ih =>
    exact twin_runFrom host (twin_stepBody host (fun nested => ih nested (depth + 1) 0) rules depth)
      depth (steps.drop start) start

end Twins

/-! ### The end of a run -/

def closedOutcome {W : Type} (host : Host W) (fetch : Dict) (errors : List (String × String))
    (o : String) : String :=
  if fetchFailed fetch = true ∨ (errors ≠ [] ∧ host.failOpenOnVariableError = false) then "review"
  else o

section Ends
variable {W : Type} (host : Host W) {v w : List (String × String)} {e : Dict}

open Prog (Respects)

theorem sendToReview_eq (type : String) (s : Run W) : ∃ s', sendToReview type s = (.ok (), s') ∧
    s'.ctx.outcome = "review" ∧ s'.ctx.status = s.ctx.status ∧
    s'.ctx.variableErrors = s.ctx.variableErrors :=
  ⟨_, rfl, rfl, rfl, rfl⟩

theorem fetchGuard_eq (s : Run W) : ∃ s', failClosedOnFetchErrors s = (.ok (), s') ∧
    s'.ctx.outcome = (if fetchFailed s.ctx.sourceFetchErrors = true then "review"
      else s.ctx.outcome) ∧
    s'.ctx.status = s.ctx.status ∧ s'.ctx.variableErrors = s.ctx.variableErrors := by
  by_cases hf : fetchFailed s.ctx.sourceFetchErrors = true
  · by_cases ho : s.ctx.outcome = "review"
    · refine ⟨s, ?_, by rw [if_pos hf, ho], rfl, rfl⟩
      show when (_ ∧ _) _ s = _
      rw [when, if_neg fun h => h.2 ho]
      rfl
    · obtain ⟨s', hs', h1, h2, h3⟩ := sendToReview_eq "source_fetch_guard" s
      refine ⟨s', ?_, by rw [if_pos hf, h1], h2, h3⟩
      show when (_ ∧ _) _ s = _
      rw [when, if_pos ⟨hf, ho⟩]
      exact hs'
  · refine ⟨s, ?_, by rw [if_neg hf], rfl, rfl⟩
    show when (_ ∧ _) _ s = _
    rw [when, if_neg fun h => hf h.1]
    rfl

theorem variableGuard_eq (s : Run W) : ∃ s', failClosedOnVariableErrors host s = (.ok (), s') ∧
    s'.ctx.outcome = (if s.ctx.variableErrors ≠ [] ∧ host.failOpenOnVariableError = false
      then "review" else s.ctx.outcome) ∧ s'.ctx.status = s.ctx.status := by
  have hempty : (!s.ctx.variableErrors.isEmpty) = true ↔ s.ctx.variableErrors ≠ [] := by simp
  by_cases hv : s.ctx.variableErrors ≠ [] ∧ host.failOpenOnVariableError = false
  · by_cases ho : s.ctx.outcome = "review"
    · refine ⟨s, ?_, by rw [if_pos hv, ho], rfl⟩
      show when (_ ∧ _ ∧ _) _ s = _
      rw [when, if_neg fun h => h.2.2 ho]
      rfl
    · obtain ⟨s', hs', h1, h2, -⟩ := sendToReview_eq "variable_error_guard" s
      refine ⟨s', ?_, by rw [if_pos hv, h1], h2⟩
      show when (_ ∧ _ ∧ _) _ s = _
      simp_all [when]
  · refine ⟨s, ?_, by rw [if_neg hv], rfl⟩
    show when (_ ∧ _ ∧ _) _ s = _
    rw [when, if_neg fun h => hv ⟨hempty.mp h.1, h.2.1⟩]
    rfl

theorem complete_eq (s : Run W) : ∃ s', complete host s = (.ok (), s') ∧
    s'.ctx.outcome = s.ctx.outcome ∧ s'.ctx.status = s.ctx.status := by
  unfold complete when
  by_cases hs : host.simulate = false
  · simp only [hs, if_true]
    exact ⟨_, rfl, rfl, rfl⟩
  · simp only [hs]
    exact ⟨_, rfl, rfl, rfl⟩

theorem finish_eq (s : Run W) : ∃ s', finish host s = (.ok (), s') ∧
    (s.ctx.status = .paused → s' = s) ∧
    (s.ctx.status ≠ .paused →
      s'.ctx.outcome = closedOutcome host s.ctx.sourceFetchErrors s.ctx.variableErrors
        s.ctx.outcome ∧
      s'.ctx.status = if s.ctx.status = .running then .completed else s.ctx.status) := by
  by_cases hp : s.ctx.status = .paused
  · refine ⟨s, ?_, fun _ => rfl, fun h => absurd hp h⟩
    show (if s.ctx.status = .paused then _ else _ : Exec W Unit) s = _
    rw [if_pos hp]
    rfl
  · -- the status first, then the two guards, then the instants
    let s₁ : Run W := if s.ctx.status = .running
      then { s with ctx := { s.ctx with status := .completed } } else s
    have hs₁ : when (s.ctx.status = .running) (update fun c => { c with status := .completed }) s =
        (.ok (), s₁) := by
      unfold when
      by_cases hr : s.ctx.status = .running
      · simp only [s₁, hr, if_true]
        rfl
      · simp only [s₁, hr, if_false]
        rfl
    have hkeep : s₁.ctx.outcome = s.ctx.outcome ∧
        s₁.ctx.variableErrors = s.ctx.variableErrors ∧
        s₁.ctx.sourceFetchErrors = s.ctx.sourceFetchErrors ∧
        s₁.ctx.status = if s.ctx.status = .running then .completed else s.ctx.status := by
      by_cases hr : s.ctx.status = .running <;> simp [s₁, hr]
    obtain ⟨ho, hv, hf, hst⟩ := hkeep
    obtain ⟨s₂, hs₂, ho₂, hst₂, hv₂⟩ := fetchGuard_eq s₁
    obtain ⟨s₃, hs₃, ho₃, hst₃⟩ := variableGuard_eq host s₂
    obtain ⟨s₄, hs₄, ho₄, hst₄⟩ := complete_eq host s₃
    refine ⟨s₄, ?_, fun h => absurd h hp, fun _ => ⟨?_, ?_⟩⟩
    · show (if s.ctx.status = .paused then _ else _ : Exec W Unit) s = _
      rw [if_neg hp, Prog.bind_ok hs₁, Prog.bind_ok hs₂, Prog.bind_ok hs₃]
      exact hs₄
    · grind [closedOutcome]
    · rw [hst₄, hst₃, hst₂, hst]

theorem advance_twin (frames : ℕ) (steps : List Value) :
    Respects (Twin v w e) (advance host frames steps) := by
  have hassign : Respects (Twin v w e) (assign host) := by
    refine .bind (twin_ctx fun _ => rfl) fun who => ?_
    cases host.assignment who with
    | none => exact .pure _
    | some a =>
      exact .bind (twin_update ⟨fun _ => rfl, fun _ => rfl, fun _ => rfl⟩) fun _ => .pure _
  have hvisited : ∀ ids, Respects (Twin v w e)
      (Prog.modify fun r => { r with visited := ids } : Exec W Unit) := fun ids =>
    .modify fun s t h => ⟨h.same, rfl, h.world, h.left, h.right, h.fetch⟩
  refine .bind (twin_update ⟨fun _ => rfl, fun _ => rfl, fun _ => rfl⟩) fun _ =>
    .bind (.bind (twin_ask _) fun now => twin_update ⟨fun _ => rfl, fun _ => rfl, fun _ => rfl⟩)
    fun _ => .bind hassign fun a => .bind (twin_ctx fun _ => rfl) fun start =>
    .bind (twin_ctx fun _ => rfl) fun id => .bind (hvisited [id]) fun _ => ?_
  exact runSteps_twin host _ frames steps 0 start

/-- Twins after a run: still twins at a pause, or each closed by its own errors. -/
def Ended (v w : List (String × String)) (e : Dict) (s t : Run W) : Prop :=
  (s.ctx.status = .paused ∧ Twin v w e s t) ∨
    (s.ctx.status ≠ .paused ∧ t.ctx.status = s.ctx.status ∧
      ∃ o, s.ctx.outcome = closedOutcome host e v o ∧ t.ctx.outcome = closedOutcome host e w o)

variable {s t r : Run W}

theorem execute_twin (frames : ℕ) (steps : List Value) (h : Twin v w e s t) :
    (∃ x s' t', execute host frames steps s = (.error x, s') ∧
      execute host frames steps t = (.error x, t')) ∨
    ∃ s' t', execute host frames steps s = (.ok (), s') ∧
      execute host frames steps t = (.ok (), t') ∧ Ended host v w e s' t' := by
  obtain ⟨hr, htwin⟩ := advance_twin host frames steps s t h
  cases hs : advance host frames steps s with
  | mk x s₁ =>
    cases ht : advance host frames steps t with
    | mk y t₁ =>
      rw [hs, ht] at hr htwin
      have hr : x = y := hr
      subst hr
      cases x with
      | error x => exact Or.inl ⟨x, s₁, t₁, Prog.bind_error hs, Prog.bind_error ht⟩
      | ok u =>
        have hstatus : s₁.ctx.status = t₁.ctx.status := htwin.field fun _ => rfl
        have houtcome : s₁.ctx.outcome = t₁.ctx.outcome := htwin.field fun _ => rfl
        have hfetch : t₁.ctx.sourceFetchErrors = e := by
          rw [← htwin.fetch]
          exact (htwin.field (f := (·.sourceFetchErrors)) fun _ => rfl).symm
        obtain ⟨s', hs', hps, hes⟩ := finish_eq host s₁
        obtain ⟨t', ht', hpt, het⟩ := finish_eq host t₁
        refine Or.inr ⟨s', t', (Prog.bind_ok hs).trans hs', (Prog.bind_ok ht).trans ht', ?_⟩
        by_cases hp : s₁.ctx.status = .paused
        · rw [hps hp, hpt (hstatus ▸ hp)]
          exact Or.inl ⟨hp, htwin⟩
        · obtain ⟨ho, hst⟩ := hes hp
          obtain ⟨ho', hst'⟩ := het fun h => hp (hstatus.trans h)
          rw [htwin.fetch, htwin.left] at ho
          rw [hfetch, htwin.right, ← houtcome] at ho'
          rw [← hstatus] at hst'
          refine Or.inr ⟨?_, hst'.trans hst.symm, s₁.ctx.outcome, ho, ho'⟩
          grind

/-- The budget a context comes with is never read: `execute` starts its own. -/
def unbudget (r : Run W) : Run W := { r with ctx := { r.ctx with budgetMs := 0, deadline := none } }

theorem execute_unbudget (frames : ℕ) (steps : List Value) (r : Run W) :
    execute host frames steps r = execute host frames steps (unbudget r) := rfl

theorem resumed_twin (utcnow : ℕ) (resume : Resume) (later : W → W) (h : Twin v w e s t) :
    Twin v [] e
      (unbudget { s with ctx := applyResume host s.ctx resume, world := later s.world })
      (unbudget
        { t with ctx := applyResume host (saved host utcnow t.ctx) resume,
                 world := later t.world }) := by
  have hsaved : saved host utcnow t.ctx = t.ctx.reloaded :=
    ExecutionContext.fromDict_toDict host.calendar utcnow t.ctx
  rw [hsaved]
  have hsame : ∀ c d, blank c = blank d →
      blank (unbudget { s with ctx := applyResume host c resume }).ctx =
        blank (unbudget { s with ctx := applyResume host d.reloaded resume }).ctx := by
    intro c d hcd
    have hblank : ∀ c, blank (unbudget { s with ctx := applyResume host c resume }).ctx =
        blank (unbudget { s with ctx := applyResume host (blank c) resume }).ctx := by
      intro c
      cases resume <;> rfl
    have hreload : ∀ c, blank (unbudget { s with ctx := applyResume host c.reloaded resume }).ctx =
        blank (unbudget { s with ctx := applyResume host (blank c) resume }).ctx := by
      intro c
      cases resume <;> rfl
    rw [hblank c, hreload d, hcd]
  refine ⟨hsame s.ctx t.ctx h.same, h.visited, congrArg later h.world, ?_, ?_, ?_⟩
  · cases resume <;> exact h.left
  · cases resume <;> rfl
  · cases resume <;> exact h.fetch

/-! ### Pausing changes nothing -/

/-- The guard that reads what a save forgets has nothing to do: no variable failed, or
    failing open is switched on, or the guard before it sends the run to review. -/
def Safe (c : ExecutionContext) : Prop :=
  c.variableErrors = [] ∨ host.failOpenOnVariableError = true ∨
    fetchFailed c.sourceFetchErrors = true

def ending (x : Except Raised (Run W)) : Except Raised (String × Status) :=
  x.map fun r => (r.ctx.outcome, r.ctx.status)

theorem closedOutcome_safe
    (hsafe : v = [] ∨ host.failOpenOnVariableError = true ∨ fetchFailed e = true)
    (hw : w = v ∨ w = []) (o : String) :
    closedOutcome host e v o = closedOutcome host e w o := by
  rcases hw with rfl | rfl
  · rfl
  grind [closedOutcome]

theorem continueRun_twin
    (hsafe : v = [] ∨ host.failOpenOnVariableError = true ∨ fetchFailed e = true)
    (utcnow frames : ℕ) (steps : List Value) (resumes : List (Resume × (W → W)))
    (hw : w = v ∨ w = []) (h : Ended host v w e s t) :
    ending (continueRun host id frames steps resumes s) =
      ending (continueRun host (saved host utcnow) frames steps resumes t) := by
  have hclosed : ∀ {s t : Run W} {w : List (String × String)}, w = v ∨ w = [] →
      Ended host v w e s t → s.ctx.outcome = t.ctx.outcome ∧ s.ctx.status = t.ctx.status := by
    rintro s t w hw (⟨-, htwin⟩ | ⟨-, hst, o, ho, ho'⟩)
    · exact ⟨htwin.field fun _ => rfl, htwin.field fun _ => rfl⟩
    · grind -ring -linarith [closedOutcome_safe]
  induction resumes generalizing s t w with
  | nil => grind -ring -linarith [continueRun, ending, Except.map]
  | cons resume rest ih =>
    obtain ⟨resume, later⟩ := resume
    rcases h with ⟨hp, htwin⟩ | hend
    · have hp' : t.ctx.status = .paused := (htwin.field (f := (·.status)) fun _ => rfl) ▸ hp
      unfold continueRun
      rw [if_pos hp, if_pos hp', execute_unbudget, execute_unbudget host frames steps
        { t with ctx := applyResume host (saved host utcnow t.ctx) resume, world := later t.world }]
      rcases execute_twin host frames steps (resumed_twin host utcnow resume later htwin) with
        ⟨x, s', t', hs, ht⟩ | ⟨s', t', hs, ht, hended⟩
      · rw [id, hs, ht]
      · rw [id, hs, ht]
        exact ih (Or.inr rfl) hended
    · obtain ⟨ho, hst⟩ := hclosed hw (Or.inr hend)
      unfold continueRun
      rw [if_neg hend.1, if_neg (hst ▸ hend.1)]
      simp [ending, Except.map, ho, hst]

theorem Twin.refl (hv : r.ctx.variableErrors = v)
    (he : r.ctx.sourceFetchErrors = e) : Twin v v e r r :=
  ⟨rfl, rfl, rfl, hv, hv, he⟩

theorem continueRun_memory (frames : ℕ) (steps : List Value) (resumes : List (Resume × (W → W)))
    {r' : Run W} (hr : Ended host v v e r r)
    (h : continueRun host id frames steps resumes r = .ok r') : Ended host v v e r' r' := by
  induction resumes generalizing r with
  | nil =>
    cases h
    exact hr
  | cons resume rest ih =>
    obtain ⟨resume, later⟩ := resume
    unfold continueRun at h
    rcases hr with ⟨hp, htwin⟩ | hend
    · rw [if_pos hp] at h
      have hself : Twin v v e
          { r with ctx := applyResume host (id r.ctx) resume, world := later r.world }
          { r with ctx := applyResume host (id r.ctx) resume, world := later r.world } := by
        refine Twin.refl ?_ ?_
        · cases resume <;> exact htwin.left
        · cases resume <;> exact htwin.fetch
      rcases execute_twin host frames steps hself with ⟨x, s', t', hs, -⟩ | ⟨s', t', hs, ht, hended⟩
      · rw [hs] at h
        cases h
      grind
    · rw [if_neg hend.1] at h
      cases h
      exact Or.inr hend

/-- A run ends alike whether it stays in memory or goes through a save at each pause, if
    the guard has nothing to do; and then, with failing open switched off, a run in which
    a variable failed ends in review. -/
theorem paused_run_same (utcnow frames : ℕ) (steps : List Value)
    (resumes : List (Resume × (W → W))) (r : Run W) (hsafe : Safe host r.ctx) :
    ending (wholeRun host id frames steps resumes r) =
        ending (wholeRun host (saved host utcnow) frames steps resumes r) ∧
      (host.failOpenOnVariableError = false → r.ctx.variableErrors ≠ [] →
        ∀ reload ∈ [id, saved host utcnow], ∀ o st,
          ending (wholeRun host reload frames steps resumes r) = .ok (o, st) → st ≠ .paused →
            o = "review") := by
  have hsame : ending (wholeRun host id frames steps resumes r) =
      ending (wholeRun host (saved host utcnow) frames steps resumes r) := by
    unfold wholeRun
    rcases execute_twin host frames steps (Twin.refl rfl rfl : Twin _ _ _ r r) with
      ⟨x, s', t', hs, -⟩ | ⟨s', t', hs, ht, hended⟩
    · rw [hs]
    · rw [hs] at ht ⊢
      cases ht
      exact continueRun_twin host hsafe utcnow frames steps resumes (Or.inl rfl) hended
  refine ⟨hsame, fun hclosed herrors reload hreload o st hend hst => ?_⟩
  have hmem : ending (wholeRun host id frames steps resumes r) = .ok (o, st) := by
    simp only [List.mem_cons, List.not_mem_nil, or_false] at hreload
    rcases hreload with rfl | rfl
    · exact hend
    · rw [hsame]
      exact hend
  unfold wholeRun at hmem
  rcases execute_twin host frames steps (Twin.refl rfl rfl : Twin _ _ _ r r) with
    ⟨x, s', t', hs, -⟩ | ⟨s', t', hs, ht, hended⟩
  · rw [hs] at hmem
    cases hmem
  · rw [hs] at ht hmem
    cases ht
    change ending (continueRun host id frames steps resumes s') = _ at hmem
    cases hc : continueRun host id frames steps resumes s' with
    | error x => rw [hc] at hmem; cases hmem
    | ok r' =>
      rw [hc] at hmem
      cases hmem
      rcases continueRun_memory host frames steps resumes hended hc with ⟨hp, -⟩ | ⟨-, -, o, ho, -⟩
      · exact absurd hp hst
      · rw [ho, closedOutcome, if_pos (Or.inr ⟨herrors, hclosed⟩)]

end Ends

/-! ### A gate, with and without a failed variable -/

/-- The first instant as it is written, and others by their length. -/
def epochCalendar : Calendar where
  isoformat s := if s = 0 then "1970-01-01T00:00:00Z" else String.ofList (List.replicate s '-')
  fromisoformat t := if t = "1970-01-01T00:00:00Z" then 0 else t.toList.length
  reads_back s := by
    by_cases hs : s = 0
    · simp [hs]
    · have hne : String.ofList (List.replicate s '-') ≠ "1970-01-01T00:00:00Z" := by
        intro h
        have h1 : '1' ∈ (String.ofList (List.replicate s '-')).toList := by
          rw [h]
          decide
        rw [String.toList_ofList] at h1
        exact absurd (List.eq_of_mem_replicate h1) (by decide)
      simp [hs, hne]
  ne_empty s := by
    by_cases hs : s = 0
    · simp [hs]
    · simp_all

/-- A host of no catalog, whose clock stands still. -/
def quietHost : Host Unit where
  py := asciiText
  calendar := epochCalendar
  evaluators _ := ⟨fun _ => .ok .null, fun _ => .ok .null, fun _ => .ok .null⟩
  evaluateCondition _ _ := .ok true
  resolveCollection _ _ := .ok .null
  transform _ _ := .ok ("transformed", .dict [])
  assignment _ := none
  rules _ := []
  scorecards := []
  decisionTables := []
  connectors := []
  fetchEnabled _ := false
  onFetchFailure _ := "review_gate"
  secrets := .dict []
  workflowAlias _ := ""
  policySteps _ := none
  failOpenOnVariableError := false
  evaluationBudgetMs := 0
  simulate := false
  debugStopBefore := none
  maxPolls := 10
  pollMet _ _ := false
  addAuditEvent _ _ := (true, ())
  fire _ _ _ _ _ := (([], .answered .null), ())
  model _ _ _ _ := (.ok (.null, none), ())
  createReviewTask _ _ _ := (.ok "task-1", ())
  now _ := (0, ())
  uuid _ := ("decision-1", ())

def freshRun (errors : List (String × String)) : Run Unit where
  visited := []
  world := ()
  ctx :=
    { payload := .dict [], tenantId := "t", policyId := "p", executionId := "x", userId := .null,
      decisionId := none, vars := [], variableErrors := errors, ruleResults := [],
      scorecardResults := [], decisionTableResults := [], transformOutputs := [],
      actionResults := [], sourceFetches := [], sourceFetchErrors := [], loopScope := [],
      pendingOperations := [], outcome := "pending", status := .running, currentStepIndex := 0,
      pausedAtStep := none, reviewTaskId := none, reviewResponse := [], callbacks := [],
      experimentId := none, experimentVariant := none, stepTrace := [], startedAt := 0,
      completedAt := none, totalLatencyMs := 0, budgetMs := 0, deadline := none }

def gateSteps : List Value := [.dict [("type", .str "review_gate"), ("id", .str "gate")]]

/-- No variable failed: the reviewer's approval stands either way. -/
theorem approved_either_way :
    ending (wholeRun quietHost id 2 gateSteps [(.review true [], id)] (freshRun [])) =
        .ok ("approve", .completed) ∧
      ending (wholeRun quietHost (saved quietHost 0) 2 gateSteps [(.review true [], id)]
        (freshRun [])) = .ok ("approve", .completed) :=
  have h := (paused_run_same quietHost 0 2 gateSteps [(.review true [], id)] (freshRun [])
    (Or.inl rfl)).1
  ⟨by rfl, h ▸ by rfl⟩

/-- A variable failed: in memory the run ends in review, through a save it is approved. -/
theorem save_forgets_failure :
    ending (wholeRun quietHost id 2 gateSteps [(.review true [], id)]
        (freshRun [("fraud_score", "timeout")])) = .ok ("review", .completed) ∧
      ending (wholeRun quietHost (saved quietHost 0) 2 gateSteps [(.review true [], id)]
        (freshRun [("fraud_score", "timeout")])) = .ok ("approve", .completed) :=
  ⟨by rfl, by rfl⟩

end RuleMind
