/-
  Policies that call each other: the recursion of `_run_steps` in `app/executor.py`.
-/
import RuleMind.StepOrder
import Mathlib.Algebra.Order.BigOperators.Group.List

namespace RuleMind

open Exec

/-! ### The step lists of a step -/

section Below
variable {W : Type} (host : Host W)

inductive Below (depth : ℕ) (step : Value) : List Value → Prop
  | loop {steps} : stepList ((stepConfig step).lookup "steps") = .ok steps → Below depth step steps
  | default {steps} :
    stepList ((stepConfig step).lookup "default") = .ok steps → Below depth step steps
  | branch {branches branch steps} : stepList ((stepConfig step).lookup "branches") = .ok branches →
    branch ∈ branches → stepList (branch.field "steps") = .ok steps → Below depth step steps
  | workflow {id steps} : depth < MAX_WORKFLOW_DEPTH → host.policySteps id = some steps →
    Below depth step steps

/-! ### Steps on other nested runs -/

section Congruence
variable {host} {sub sub' : List Value → Exec W Unit}

theorem ofPy_congr {v : Option Value} {α : Type} {f g : List Value → Exec W α}
    (h : ∀ steps, stepList v = .ok steps → f steps = g steps) :
    (ofPy (stepList v) >>= f) = (ofPy (stepList v) >>= g) := by
  cases hv : stepList v with
  | error e => rfl
  | ok steps => exact h steps hv

theorem loopSequential_congr (cfg : LoopConfig) (outer : Dict)
    (h : ∀ steps, stepList cfg.steps = .ok steps → sub steps = sub' steps) (items : List Value)
    (index : ℕ) :
    loopSequential sub cfg outer items index = loopSequential sub' cfg outer items index := by
  induction items generalizing index with
  | nil => rfl
  | cons item items ih =>
    unfold loopSequential
    refine bind_congr fun _ => bind_congr fun _ => bind_congr fun _ => ofPy_congr fun steps hs => ?_
    rw [h steps hs, ih]

theorem loopChildren_congr (cfg : LoopConfig) (outer : Dict)
    (h : ∀ steps, stepList cfg.steps = .ok steps → sub steps = sub' steps) (items : List Value)
    (index : ℕ) :
    loopChildren sub cfg outer items index = loopChildren sub' cfg outer items index := by
  induction items generalizing index with
  | nil => rfl
  | cons item items ih =>
    unfold loopChildren
    rw [ih]
    refine congrArg (· >>= _) (congrArg (isolated _ _) (ofPy_congr fun steps hs => ?_))
    rw [h steps hs]

variable {depth : ℕ} {step : Value}

theorem executeLoop_congr (h : ∀ steps, Below host depth step steps → sub steps = sub' steps) :
    executeLoop host sub depth step = executeLoop host sub' depth step := by
  have hbody : ∀ steps, stepList ((stepConfig step).lookup "steps") = .ok steps →
      sub steps = sub' steps := fun steps hs => h steps (.loop hs)
  unfold executeLoop
  split
  · rfl
  · refine bind_congr fun _ => bind_congr fun _ => bind_congr fun _ => bind_congr fun outer => ?_
    refine congrArg (· >>= _) ?_
    unfold loopIterations loopParallel loopInOrder
    rw [loopSequential_congr _ _ hbody, loopChildren_congr _ _ hbody]

theorem tryBranches_congr {arms : List Value}
    (h : ∀ steps, Below host depth step steps → sub steps = sub' steps)
    (harms : stepList ((stepConfig step).lookup "branches") = .ok arms) (v : Value)
    {branches : List Value} (hsub : ∀ branch ∈ branches, branch ∈ arms) (i : ℕ) :
    tryBranches host sub v ((stepConfig step).lookup "default") branches i =
      tryBranches host sub' v ((stepConfig step).lookup "default") branches i := by
  induction branches generalizing i with
  | nil =>
    unfold tryBranches
    refine ofPy_congr fun steps hs => ?_
    rw [h steps (.default hs)]
  | cons branch branches ih =>
    unfold tryBranches
    refine bind_congr fun go => ?_
    rw [ih fun b hb => hsub b (List.mem_cons_of_mem _ hb)]
    refine ite_congr rfl (fun _ => ofPy_congr fun steps hs => ?_) fun _ => rfl
    rw [h steps (.branch harms (hsub branch List.mem_cons_self) hs)]

theorem executeBranch_congr (h : ∀ steps, Below host depth step steps → sub steps = sub' steps) :
    executeBranch host sub step = executeBranch host sub' step := by
  unfold executeBranch
  refine ofPy_congr fun branches hs => bind_congr fun v => ?_
  exact tryBranches_congr h hs v (fun _ hb => hb) 0

theorem executeSubworkflow_congr
    (h : ∀ steps, Below host depth step steps → sub steps = sub' steps) :
    executeSubworkflow host sub depth step = executeSubworkflow host sub' depth step := by
  unfold executeSubworkflow
  split
  · rfl
  · rename_i hdepth
    refine bind_congr fun seen => ite_congr rfl (fun _ => rfl) fun _ => ?_
    generalize hp : host.policySteps _ = found
    cases found with
    | none => rfl
    | some steps =>
      dsimp only
      rw [h steps (.workflow (not_le.1 hdepth) hp)]

theorem executeStepBody_congr
    (h : ∀ steps, Below host depth step steps → sub steps = sub' steps) (rules : Dict) :
    executeStepBody host sub rules depth step = executeStepBody host sub' rules depth step := by
  unfold executeStepBody
  rw [executeLoop_congr h, executeBranch_congr h, executeSubworkflow_congr h]

theorem runFrom_congr {body body' : Value → Exec W (Option Value)} {steps : List Value}
    (h : ∀ step ∈ steps, body step = body' step) (depth index : ℕ) :
    runFrom host body depth steps index = runFrom host body' depth steps index := by
  induction steps generalizing index with
  | nil => rfl
  | cons step steps ih =>
    unfold runFrom runStep
    rw [h step List.mem_cons_self, ih fun s hs => h s (List.mem_cons_of_mem _ hs)]

end Congruence

/-! ### The size of a step list -/

variable {key : String} {steps : List Value}

variable {v step : Value} {depth : ℕ}

theorem lookup_size {kvs : Dict} (h : kvs.lookup key = some v) : sizeOf v < sizeOf kvs := by
  induction kvs with
  | nil => cases h
  | cons kv kvs ih => grind

theorem field_size {w : Value} (h : v.field key = some w) : sizeOf w < sizeOf v := by
  obtain ⟨kvs, rfl, hk⟩ := Value.field_eq_some h
  have := lookup_size hk
  simp only [Value.dict.sizeOf_spec]
  omega

theorem stepList_size {v : Option Value} (h : stepList v = .ok steps) :
    steps = [] ∨ v = some (.list steps) := by
  unfold stepList at h
  split at h
  · cases h
    exact Or.inl rfl
  · simp_all
  · cases h
  · cases h

theorem size_pos (v : Value) : 1 ≤ sizeOf v := by
  cases v <;> simp

theorem config_size
    (h : stepList ((stepConfig step).lookup key) = .ok steps) : sizeOf steps ≤ sizeOf step := by
  rcases stepList_size h with rfl | hv
  · exact size_pos step
  · have hlist := lookup_size hv
    rw [stepConfig] at hlist
    cases hc : (step.field "config").bind Value.asDict with
    | none =>
      rw [stepConfig, hc] at hv
      cases hv
    | some kvs =>
      rw [hc] at hlist
      obtain ⟨config, hfield, hdict⟩ := Option.bind_eq_some_iff.1 hc
      have hconfig := field_size hfield
      cases config with
      | dict kvs' =>
        obtain rfl : kvs' = kvs := Option.some.inj hdict
        grind
      | _ => cases hdict

theorem Below.size (h : Below host depth step steps) : sizeOf steps ≤ sizeOf step ∨
      (depth < MAX_WORKFLOW_DEPTH ∧ ∃ id, host.policySteps id = some steps) := by
  cases h with
  | loop h => exact Or.inl (config_size h)
  | default h => exact Or.inl (config_size h)
  | workflow hdepth h => exact Or.inr ⟨hdepth, _, h⟩
  | @branch branches branch _ hbranches hmem h =>
    left
    rcases stepList_size h with rfl | hv
    · exact size_pos step
    · have h1 := field_size hv
      have h2 := List.sizeOf_lt_of_mem hmem
      have h3 := config_size hbranches
      simp only [Value.list.sizeOf_spec] at h1
      omega

/-! ### Frames -/

/-- `runSteps`, with another program where the frames end. -/
def runStepsOver (bottom : List Value → ℕ → ℕ → Exec W Unit) (rules : Dict) :
    ℕ → List Value → ℕ → ℕ → Exec W Unit
  | 0, steps, depth, start => bottom steps depth start
  | frames + 1, steps, depth, start =>
    runFrom host
      (executeStepBody host (fun nested => runStepsOver bottom rules frames nested (depth + 1) 0)
        rules depth)
      depth (steps.drop start) start

theorem runSteps_over (rules : Dict) (frames : ℕ) (steps : List Value) (depth start : ℕ) :
    runSteps host rules frames steps depth start =
      runStepsOver host (fun _ _ _ => fail .recursionError) rules frames steps depth start := by
  induction frames generalizing steps depth start with
  | zero => rfl
  | succ frames ih =>
    rw [runSteps, runStepsOver]
    simp only [ih]

/-- As many frames as steps at a depth can need: those of the policies that may still be
    called, and one for each level of the steps themselves. -/
noncomputable def framesFor (largest depth : ℕ) (steps : List Value) : ℕ :=
  (MAX_WORKFLOW_DEPTH - depth) * (largest + 1) + sizeOf steps + 1

theorem runStepsOver_frames {bottom bottom' : List Value → ℕ → ℕ → Exec W Unit} {largest : ℕ}
    (hlargest : ∀ id steps, host.policySteps id = some steps → sizeOf steps ≤ largest)
    (rules : Dict) {frames frames' : ℕ}
    (h : framesFor largest depth steps ≤ frames) (h' : framesFor largest depth steps ≤ frames')
    (start : ℕ) : runStepsOver host bottom rules frames steps depth start =
      runStepsOver host bottom' rules frames' steps depth start := by
  induction frames generalizing frames' steps depth start with
  | zero => exact absurd h (by simp [framesFor])
  | succ frames ih =>
    obtain ⟨frames', rfl⟩ : ∃ n, frames' = n + 1 := ⟨frames' - 1, by unfold framesFor at h'; omega⟩
    rw [runStepsOver, runStepsOver]
    refine runFrom_congr (fun step hstep => executeStepBody_congr (fun nested hnested => ?_) rules)
      depth start
    have hsize := List.sizeOf_lt_of_mem (List.mem_of_mem_drop hstep)
    have hneed : framesFor largest (depth + 1) nested + 1 ≤ framesFor largest depth steps := by
      unfold framesFor
      rcases hnested.size with hle | ⟨hdepth, id, hid⟩
      · -- a part of the step: it is smaller, and no more policies may be called
        have hdown : (MAX_WORKFLOW_DEPTH - (depth + 1)) * (largest + 1) ≤
            (MAX_WORKFLOW_DEPTH - depth) * (largest + 1) := Nat.mul_le_mul_right _ (by omega)
        omega
      · -- a policy: its size is paid for by the depth
        have hone := hlargest id nested hid
        obtain ⟨left, hleft⟩ : ∃ n, MAX_WORKFLOW_DEPTH - depth = n + 1 :=
          ⟨MAX_WORKFLOW_DEPTH - depth - 1, by omega⟩
        grind [Nat.succ_mul]
    exact ih (by omega) (by omega) 0

theorem exists_largest {ids : List String} (hids : ∀ id, host.policySteps id ≠ none → id ∈ ids) :
    ∃ largest, ∀ id steps, host.policySteps id = some steps → sizeOf steps ≤ largest := by
  refine ⟨((ids.filterMap host.policySteps).map sizeOf).sum, fun id steps h => ?_⟩
  have hmem : id ∈ ids := hids id (by rw [h]; exact Option.some_ne_none _)
  exact List.le_sum_of_mem (List.mem_map_of_mem (List.mem_filterMap.2 ⟨id, hmem, h⟩))

/-- **Every policy run terminates**: among finitely many policies, whatever they refer to, there
    is a number of frames that no run of the steps exceeds, on no context. -/
theorem policy_runs_terminate {ids : List String}
    (hids : ∀ id, host.policySteps id ≠ none → id ∈ ids) (rules : Dict) (steps : List Value)
    (depth : ℕ) : ∃ enough, ∀ (bottom : List Value → ℕ → ℕ → Exec W Unit) (frames start : ℕ),
      enough ≤ frames → runStepsOver host bottom rules frames steps depth start =
        runSteps host rules enough steps depth start := by
  obtain ⟨largest, hlargest⟩ := exists_largest host hids
  refine ⟨framesFor largest depth steps, fun bottom frames start h => ?_⟩
  rw [runSteps_over]
  exact runStepsOver_frames host hlargest rules h le_rfl start

def mutualHost : Host Unit :=
  { quietHost with policySteps := fun id =>
      if id = "a" then some [.dict [("type", .str "workflow"), ("ref_id", .str "b")]]
      else if id = "b" then some [.dict [("type", .str "workflow"), ("ref_id", .str "a")]]
      else none }

theorem mutual_policies_known (id : String) (h : mutualHost.policySteps id ≠ none) :
    id ∈ ["a", "b"] := by grind [mutualHost]

theorem mutual_policies_terminate : ∃ enough,
    ∀ (bottom : List Value → ℕ → ℕ → Exec Unit Unit) (frames start : ℕ), enough ≤ frames →
      runStepsOver mutualHost bottom [] frames
          [.dict [("type", .str "workflow"), ("ref_id", .str "a")]] 0 start =
        runSteps mutualHost [] enough [.dict [("type", .str "workflow"), ("ref_id", .str "a")]]
          0 start :=
  policy_runs_terminate mutualHost mutual_policies_known [] _ 0

end Below

end RuleMind
