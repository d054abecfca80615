/-
  The chain of calls that leads to a step of a policy, in `app/executor.py`.
-/
import RuleMind.PolicyCalls

namespace RuleMind

open Exec

/-! ### A turn of the loop over the steps -/

section Turns
variable {W : Type} (host : Host W)

/-- The turn up to the body: its answer, where the body does not run. -/
def beginStep (depth index : ℕ) (step : Value) : Exec W (Option Bool) := do
  when step.asDict.isNone (fail .attributeError)
  checkBudget host
  when (depth = 0) (update fun c => { c with currentStepIndex := index })
  if depth = 0 ∧ host.debugStopBefore.any (· ≤ index) then do
    update fun c => { c with status := .paused, pausedAtStep := some index }
    return some false
  else do
    let condition := ((stepConfig step).lookup "condition").getD .null
    let go ← holds host condition
    if !go then do
      trace (.dict [("step", step), ("skipped", .bool true), ("condition", condition)])
      return some true
    else return none

/-- The errors of `_execute_subworkflow`, before the child runs. -/
inductive Refusal
  | depthExceeded
  | aliasUnregistered (name : String)
  | missingRef
  | cycleDetected (ref : String)
  | unknown (ref : String)
  deriving DecidableEq

/-- `config.get("alias") or step.get("alias")`. -/
def workflowName (step : Value) : Value :=
  Value.orElse ((stepConfig step).lookup "alias") ((step.field "alias").getD .null)

/-- The policy a workflow step means; an alias decides where there is one. -/
def workflowRef (step : Value) : String :=
  if (workflowName step).truthy then host.workflowAlias (host.py.str (workflowName step))
  else stepRef host.py step

/-- The checks of `_execute_subworkflow`, in their order. -/
def refusal (depth : ℕ) (step : Value) (visited : List String) : Option Refusal :=
  if MAX_WORKFLOW_DEPTH ≤ depth then some .depthExceeded
  else if workflowRef host step = "" then
    if (workflowName step).truthy then some (.aliasUnregistered (host.py.str (workflowName step)))
    else some .missingRef
  else if workflowRef host step ∈ visited then some (.cycleDetected (workflowRef host step))
  else if host.policySteps (workflowRef host step) = none then
    some (.unknown (workflowRef host step))
  else none

theorem refusal_eq_cycle {depth : ℕ} {step : Value} {seen : List String} :
    refusal host depth step seen = some (.cycleDetected (workflowRef host step)) ↔
      depth < MAX_WORKFLOW_DEPTH ∧ workflowRef host step ≠ "" ∧ workflowRef host step ∈ seen := by
  unfold refusal
  constructor
  · grind
  · simp_all

/-! ### The nested runs of a step -/

/-- What a loop step has read when its iterations begin. -/
structure LoopPlan where
  cfg : LoopConfig
  outer : Dict
  collection : List Value
  limit : ℤ
  parallel : Bool

def LoopPlan.items (plan : LoopPlan) : List Value := pyTake plan.collection plan.limit

/-- `_execute_loop`, up to the iterations. -/
def beginLoop (depth : ℕ) (step : Value) : Exec W LoopPlan := do
  if MAX_WORKFLOW_DEPTH ≤ depth then fail .valueError
  else do
    let config := stepConfig step
    let cfg : LoopConfig :=
      ⟨host.py.str ((config.lookup "as").getD (.str "item")),
        host.py.str ((config.lookup "indexAs").getD (.str "index")), config.lookup "steps",
        (config.lookup "concurrency").getD (.int 8)⟩
    let limit ← ofPy (maxIterations host.py ((config.lookup "maxIterations").getD (.int 1000)))
    let v ← view host
    let given := ((config.lookup "over").or (config.lookup "items")).getD .null
    let collection ← ofPy (host.resolveCollection given v)
    let outer ← ctx (·.loopScope)
    let parallel :=
      lower (host.py.str ((config.lookup "mode").getD (.str "sequential"))) == "parallel"
    return ⟨cfg, outer, loopItems collection, limit, parallel⟩

/-- The arm a branch step runs, where it runs one. -/
def chosenArm (v : Value) (default : Option Value) :
    List Value → Except PyError (Option (List Value))
  | [] => do
    let steps ← stepList default
    return if steps = [] then none else some steps
  | branch :: branches => do
    let go ← branchMatches host v branch
    if go then some <$> stepList (branch.field "steps") else chosenArm v default branches

def iterationScope (cfg : LoopConfig) (outer : Dict) (item : Value) (index : ℕ) : Dict :=
  setKey (setKey outer cfg.asName item) cfg.indexName (.int index)

/-- The run an iteration begins with when the iterations follow each other. -/
def Run.atItem (r : Run W) (scope : Dict) : Run W :=
  { r with ctx := { r.ctx with loopScope := scope } }

/-- The run an iteration begins with when it has a context of its own, -/
def Run.forked (r : Run W) (scope : Dict) : Run W := { r with ctx := cloneForIteration r.ctx scope }

def Run.joined (r after : Run W) : Run W :=
  { after with ctx := { r.ctx with payload := after.ctx.payload } }

section Enters
variable (sub : List Value → Exec W Unit)

/-- The iterations of a loop that follow each other. -/
inductive EntersInOrder (cfg : LoopConfig) (outer : Dict) :
    List Value → ℕ → Run W → List Value → Run W → Prop
  | here {item items index r steps} : stepList cfg.steps = .ok steps →
    EntersInOrder cfg outer (item :: items) index r steps
      (r.atItem (iterationScope cfg outer item index))
  | next {item items index r steps r' nested r''} : stepList cfg.steps = .ok steps →
    sub steps (r.atItem (iterationScope cfg outer item index)) = (.ok (), r') →
    r'.ctx.status ≠ .paused → r'.ctx.status ≠ .failed →
    EntersInOrder cfg outer items (index + 1) r' nested r'' →
    EntersInOrder cfg outer (item :: items) index r nested r''

/-- The iterations of a loop that have a context each. -/
inductive EntersApart (cfg : LoopConfig) (outer : Dict) :
    List Value → ℕ → Run W → List Value → Run W → Prop
  | here {item items index r steps} : stepList cfg.steps = .ok steps →
    EntersApart cfg outer (item :: items) index r steps
      (r.forked (iterationScope cfg outer item index))
  | next {item items index r steps r' nested r''} : stepList cfg.steps = .ok steps →
    sub steps (r.forked (iterationScope cfg outer item index)) = (.ok (), r') →
    EntersApart cfg outer items (index + 1) (r.joined r') nested r'' →
    EntersApart cfg outer (item :: items) index r nested r''

/-- The nested runs of a step body, with the policy that is called, where one is. -/
inductive Enters (depth : ℕ) (step : Value) (r : Run W) : Option String → List Value → Run W → Prop
  | workflow {steps} : stepKind step = .workflow → refusal host depth step r.visited = none →
    host.policySteps (workflowRef host step) = some steps →
    Enters depth step r (some (workflowRef host step)) steps
      { r with visited := workflowRef host step :: r.visited }
  | branch {branches steps} : stepKind step = .branch →
    stepList ((stepConfig step).lookup "branches") = .ok branches →
    chosenArm host (contextView host r.ctx) ((stepConfig step).lookup "default") branches =
      .ok (some steps) →
    Enters depth step r none steps r
  | inOrder {plan r₀ nested r'} : stepKind step = .loop →
    beginLoop host depth step r = (.ok plan, r₀) → ¬ (plan.parallel = true ∧ plan.items ≠ []) →
    EntersInOrder sub plan.cfg plan.outer plan.items 0 r₀ nested r' →
    Enters depth step r none nested r'
  | apart {plan r₀ nested r'} : stepKind step = .loop →
    beginLoop host depth step r = (.ok plan, r₀) → plan.parallel = true ∧ plan.items ≠ [] →
    (∃ n, loopConcurrency host.py plan.cfg.concurrency = .ok n) →
    EntersApart sub plan.cfg plan.outer plan.items 0 r₀ nested r' →
    Enters depth step r none nested r'

end Enters

section Only
variable {sub sub' : List Value → Exec W Unit}

def childRun (sub : List Value → Exec W Unit) (cfg : LoopConfig) : Exec W ChildEffects := do
  let steps ← ofPy (stepList cfg.steps)
  sub steps
  ctx childEffects

def runChild (sub : List Value → Exec W Unit) (cfg : LoopConfig) (scope : Dict) :
    Exec W ChildEffects :=
  fun r => ((childRun sub cfg (r.forked scope)).1, r.joined (childRun sub cfg (r.forked scope)).2)

end Only

/-! ### The turns of a run -/

/-- A step whose body runs: the policies whose calls are open, and the run as the body finds it. -/
structure Turn (W : Type) where
  chain : List String
  depth : ℕ
  step : Value
  run : Run W

def nestedSteps (rules : Dict) (frames depth : ℕ) (nested : List Value) : Exec W Unit :=
  runSteps host rules frames nested (depth + 1) 0

/-- The turns of a run of steps, from an index on and with the calls that led to it. -/
inductive Occurs (rules : Dict) :
    ℕ → List String → ℕ → List Value → ℕ → Run W → Turn W → Prop
  | here {frames chain depth step steps index r r'} :
    beginStep host depth index step r = (.ok none, r') →
    Occurs rules frames chain depth (step :: steps) index r ⟨chain, depth, step, r'⟩
  | next {frames chain depth step steps index r r' t} :
    runStep host (executeStepBody host (nestedSteps host rules frames depth) rules depth) depth
      index step r = (.ok true, r') →
    Occurs rules frames chain depth steps (index + 1) r' t →
    Occurs rules frames chain depth (step :: steps) index r t
  | inside {frames chain depth step steps index r r' call nested s t} :
    beginStep host depth index step r = (.ok none, r') →
    Enters host (nestedSteps host rules (frames + 1) depth) depth step r' call nested s →
    Occurs rules frames (call.toList ++ chain) (depth + 1) nested 0 s t →
    Occurs rules (frames + 1) chain depth (step :: steps) index r t

section Noted
variable {host} {sub : List Value → Exec W Unit}

open Prog (Moves)

variable {r r' : Run W} {index : ℕ} {nested : List Value}

theorem visited_of_moves {α : Type} {m : Exec W α} (hm : Moves Advance m)
    {x : Except Raised α} (h : m r = (x, r')) : r.visited ⊆ r'.visited := by
  have hmove := hm r
  rw [h] at hmove
  exact hmove.visited.subset

variable {cfg : LoopConfig} {outer : Dict} {items : List Value} {depth : ℕ}

theorem EntersInOrder.noted (hsub : ∀ steps, Moves Advance (sub steps))

    (h : EntersInOrder sub cfg outer items index r nested r') : r.visited ⊆ r'.visited := by
  induction h with
  | here _ => exact List.Subset.refl _
  | next _ hrun _ _ _ ih =>
    have hnoted := visited_of_moves (hsub _) hrun
    exact List.Subset.trans hnoted ih

theorem EntersApart.noted (hsub : ∀ steps, Moves Advance (sub steps))

    (h : EntersApart sub cfg outer items index r nested r') : r.visited ⊆ r'.visited := by
  induction h with
  | here _ => exact List.Subset.refl _
  | next _ hrun _ ih =>
    have hnoted := visited_of_moves (hsub _) hrun
    exact List.Subset.trans hnoted ih

theorem moves_beginLoop (host : Host W) (depth : ℕ) (step : Value) :
    Moves Advance (beginLoop host depth step) :=
  .ite (moves_fail _) (.bind (moves_ofPy _) fun _ => .bind (moves_view host) fun _ =>
    .bind (moves_ofPy _) fun _ => .bind (moves_ctx _) fun _ => .pure _)

theorem moves_beginStep (host : Host W) (depth index : ℕ) (step : Value) :
    Moves Advance (beginStep host depth index step) := by
  refine .bind (moves_when (moves_fail _)) fun _ => .bind (moves_checkBudget host) fun _ =>
    .bind (moves_when (moves_update fun _ => le_rfl)) fun _ => .ite ?_ ?_
  · exact .bind (moves_update fun _ => le_rfl) fun _ => .pure _
  · refine .bind (moves_holds host _) fun go => .ite ?_ (.pure _)
    exact .bind (moves_trace _) fun _ => .pure _

theorem Enters.noted (hsub : ∀ steps, Moves Advance (sub steps)) {step : Value}
    {call : Option String}
    (h : Enters host sub depth step r call nested r') :
    r.visited ⊆ r'.visited ∧ call.toList ⊆ r'.visited := by
  cases h with
  | workflow _ _ _ => simp
  | branch _ _ _ => exact ⟨List.Subset.refl _, List.nil_subset _⟩
  | inOrder _ hplan _ hin =>
    have hbegin := visited_of_moves (moves_beginLoop host depth step) hplan
    exact ⟨List.Subset.trans hbegin (hin.noted hsub), List.nil_subset _⟩
  | apart _ hplan _ _ hin =>
    have hbegin := visited_of_moves (moves_beginLoop host depth step) hplan
    exact ⟨List.Subset.trans hbegin (hin.noted hsub), List.nil_subset _⟩

theorem Occurs.noted {rules : Dict} {frames : ℕ} {chain : List String}
    {steps : List Value} {t : Turn W}
    (h : Occurs host rules frames chain depth steps index r t) (hchain : chain ⊆ r.visited) :
    t.chain ⊆ t.run.visited := by
  have hnested : ∀ (frames depth : ℕ) (nested : List Value),
      Moves Advance (nestedSteps host rules frames depth nested) :=
    fun frames depth nested => runSteps_advances host rules frames nested (depth + 1) 0
  induction h with
  | here hbegin =>
    exact List.Subset.trans hchain (visited_of_moves (moves_beginStep host _ _ _) hbegin)
  | @next frames _ depth _ _ _ _ _ _ hturn _ ih =>
    grind [moves_stepBody, List.Subset.trans, visited_of_moves, moves_runStep]
  | @inside frames _ depth _ _ _ _ _ _ _ _ _ hbegin henters _ ih =>
    have hbefore := visited_of_moves (moves_beginStep host _ _ _) hbegin
    obtain ⟨hmore, hcall⟩ := henters.noted (hnested (frames + 1) depth)
    grind

end Noted

end Turns

def leafHost : Host Unit :=
  { quietHost with policySteps := fun id => if id = "leaf" then some [] else none }

def callLeaf : Value := .dict [("type", .str "workflow"), ("ref_id", .str "leaf")]

def callerRun : Run Unit := { freshRun [] with visited := ["caller"] }

def callTurn (r : Run Unit) : Turn Unit :=
  ⟨["caller"], 0, callLeaf, (beginStep leafHost 0 r.ctx.stepTrace.length callLeaf r).2⟩

theorem first_call_occurs : Occurs leafHost [] 1 ["caller"] 0 [callLeaf, callLeaf] 0 callerRun
    (callTurn callerRun) :=
  .here rfl

def calledOnce : Run Unit :=
  (runStep leafHost (executeStepBody leafHost (nestedSteps leafHost [] 1 0) [] 0) 0 0 callLeaf
    callerRun).2

theorem second_call_occurs : Occurs leafHost [] 1 ["caller"] 0 [callLeaf, callLeaf] 0 callerRun
    (callTurn calledOnce) :=
  .next (show _ = (_, calledOnce) from rfl) (.here rfl)

end RuleMind
