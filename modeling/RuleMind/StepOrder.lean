/-
  What no step of a policy takes back, in `app/executor.py` and `app/core/engine.py`.
-/
import RuleMind.PausedRun
import RuleMind.Backtest

namespace RuleMind

open Exec

/-- A run is further on: the outcome is as strong, and the calls so far are still noted. -/
structure Advance {W : Type} (s t : Run W) : Prop where
  rank : rank s.ctx.outcome ≤ rank t.ctx.outcome
  visited : s.visited <:+ t.visited

section Advances
variable {W : Type} (host : Host W)

open Prog (Moves)

instance : IsPreorder (Run W) Advance where
  refl _ := ⟨le_rfl, List.suffix_rfl⟩
  trans _ _ _ h h' := ⟨h.rank.trans h'.rank, h.visited.trans h'.visited⟩

theorem rank_pyMerge (py : PyText) (a : String) (v : Value) :
    rank a ≤ rank (pyMergeOutcome py a v) := by
  unfold pyMergeOutcome
  rw [rank_merge]
  split
  · rename_i h
    subst h
    exact Nat.zero_le _
  · exact le_max_left _ _

theorem moves_update {f : ExecutionContext → ExecutionContext}
    (hf : ∀ c, rank c.outcome ≤ rank (f c).outcome) : Moves Advance (update f : Exec W Unit) :=
  fun _ => ⟨hf _, List.suffix_rfl⟩

variable {α : Type}

theorem moves_ctx (f : ExecutionContext → α) : Moves Advance (ctx f : Exec W α) := .gets _

theorem moves_ask (f : W → α × W) : Moves Advance (ask f : Exec W α) :=
  fun _ => ⟨le_rfl, List.suffix_rfl⟩

theorem moves_fail (x : PyError) : Moves Advance (fail x : Exec W α) := .raise _

theorem moves_ofPy (x : Except PyError α) : Moves Advance (ofPy x : Exec W α) := .ofExcept _

theorem moves_when {p : Prop} [Decidable p] {m : Exec W Unit} (hm : Moves Advance m) :
    Moves Advance (when p m) :=
  .ite hm (.pure ())

theorem moves_vote (candidate : Value) : Moves Advance (vote host candidate) :=
  moves_update fun _ => rank_pyMerge host.py _ _

theorem moves_voted (candidate result : Value) :
    Moves Advance (do vote host candidate; return result : Exec W Value) :=
  .bind (moves_vote host _) fun _ => .pure _

theorem moves_trace (entry : Value) : Moves Advance (trace entry : Exec W Unit) :=
  moves_update fun _ => le_rfl

theorem moves_view : Moves Advance (view host) := moves_ctx _

theorem moves_budget : Moves Advance (budgetRemainingMs host) :=
  .bind (moves_ask _) fun _ => .bind (moves_ctx _) fun _ => .pure _

theorem moves_checkBudget : Moves Advance (checkBudget host) :=
  .bind (moves_budget host) fun _ => .ite (.raise _) (.pure _)

theorem moves_holds (condition : Value) : Moves Advance (holds host condition) :=
  .bind (moves_view host) fun _ => .ite (moves_ofPy _) (.pure _)

/-! ### Every step handler -/

theorem moves_rule (rules : Dict) (step : Value) : Moves Advance (executeRule host rules step) := by
  unfold executeRule
  dsimp only
  split
  · exact moves_fail _
  · exact .bind (moves_ctx _) fun _ => .bind (moves_ofPy _) fun _ =>
      .bind (moves_update fun _ => le_rfl) fun _ => moves_voted host _ _

theorem moves_decisionTable (step : Value) : Moves Advance (executeDecisionTable host step) := by
  unfold executeDecisionTable
  dsimp only
  split
  · exact moves_fail _
  · refine .bind (moves_ctx _) fun _ => .bind (moves_ofPy _) fun _ =>
      .bind (moves_update fun _ => le_rfl) fun _ => ?_
    split
    · exact moves_voted host _ _
    · exact .pure _

theorem moves_scorecard (step : Value) : Moves Advance (executeScorecard host step) := by
  unfold executeScorecard
  dsimp only
  split
  · exact moves_fail _
  · exact .bind (moves_ctx _) fun _ => .bind (moves_ofPy _) fun _ =>
      .bind (moves_update fun _ => le_rfl) fun _ => .pure _

theorem moves_outcome (step : Value) : Moves Advance (executeOutcome host step) :=
  .bind (moves_vote host _) fun _ => .bind (moves_ctx _) fun _ => .pure _

theorem moves_writePayload (ref : String) (sample : Value) :
    Moves Advance (writePayload ref sample : Exec W Unit) := by
  refine .bind (moves_ctx _) fun payload => ?_
  split
  · exact moves_update fun _ => le_rfl
  · exact moves_fail _

theorem moves_connector (step : Value) : Moves Advance (executeConnector host step) := by
  unfold executeConnector
  dsimp only
  refine .bind (moves_ctx _) fun _ => ?_
  split
  · exact .pure _
  · refine .bind (moves_ctx _) fun _ => ?_
    split
    · exact .bind (moves_ofPy _) fun _ => .pure _
    · exact .ite (.pure _) (.bind (moves_when (moves_writePayload _ _)) fun _ =>
        .bind (moves_ofPy _) fun _ => .pure _)

theorem moves_transform (step : Value) : Moves Advance (executeTransform host step) :=
  .bind (moves_view host) fun _ => .bind (moves_ofPy _) fun ⟨_, _⟩ =>
    .bind (moves_update fun _ => le_rfl) fun _ => .pure _

theorem moves_model (step : Value) : Moves Advance (executeModel host step) := by
  unfold executeModel
  refine .bind (moves_view host) fun _ => .bind (moves_ctx _) fun _ =>
    .bind (moves_ask _) fun _ => .bind (moves_ofPy _) fun ⟨result, written⟩ => ?_
  cases written with
  | none => exact .pure _
  | some p => exact .bind (moves_update fun _ => le_rfl) fun _ => .pure _

theorem moves_fire (step : Value) (config : Dict) :
    Moves Advance (fireActionRequest host step config) := by
  unfold fireActionRequest
  refine .bind (moves_view host) fun _ => .bind (moves_budget host) fun _ =>
    .bind (moves_ask _) fun ⟨attempts, fired⟩ => .bind (moves_update fun _ => le_rfl) fun _ => ?_
  cases fired with
  | raised x => exact moves_fail _
  | answered result => exact .pure _
  | failed result => exact .ite (moves_fail _) (.ite (moves_voted host _ _) (.pure _))

theorem moves_pollAttempts (step : Value) (config : Dict) (condition : Value) (stepId : String)
    (maxPolls left : ℕ) (last : Value) :
    Moves Advance (pollAttempts host step config condition stepId maxPolls left last) := by
  induction left generalizing last with
  | zero => exact .pure _
  | succ left ih =>
    exact .bind (moves_checkBudget host) fun _ => .bind (moves_fire host step config) fun result =>
      .ite (.bind (moves_update fun _ => le_rfl) fun _ => .pure _) (ih result)

theorem moves_poll (step : Value) (config : Dict) :
    Moves Advance (pollAction host step config) := by
  unfold pollAction
  dsimp only
  refine .bind (moves_ofPy _) fun maxPolls => .bind (moves_pollAttempts host step config _ _ _ _ _)
    fun ⟨result, met⟩ => .ite (.pure _) (.bind (moves_update fun _ => le_rfl) fun _ => ?_)
  exact .ite (moves_fail _) (.ite (moves_voted host _ _) (.pure _))

theorem moves_async (step : Value) (config : Dict) :
    Moves Advance (asyncAction host step config) := by
  unfold asyncAction
  dsimp only
  refine .bind (moves_ctx _) fun callbacks => ?_
  split
  · refine .bind (moves_update fun _ => le_rfl) fun _ => ?_
    split
    · exact moves_voted host _ _
    · exact .pure _
  · refine .bind (moves_when (.bind (.attempt (moves_fire host step config)) fun _ => .pure _))
      fun _ => .bind (moves_update fun _ => le_rfl) fun _ => ?_
    exact .bind (moves_ctx _) fun _ => .pure _

theorem moves_action (step : Value) : Moves Advance (executeAction host step) :=
  .bind (moves_ofPy _) fun config => .ite (moves_async host step config)
    (.ite (moves_poll host step config) (moves_fire host step config))

theorem moves_monitor (step : Value) : Moves Advance (executeMonitor host step) := by
  refine .bind (.ite ?_ (.pure _)) fun _ => .bind (.ite ?_ (.pure _)) fun _ => .pure _
  · refine .bind (.attempt (moves_fire host step _)) fun sent => ?_
    cases sent <;> exact .pure _
  · exact .bind (moves_ctx _) fun _ => .bind (moves_ask _) fun _ => .ite (.pure _) (.pure _)

theorem moves_reviewGate (step : Value) : Moves Advance (executeReviewGate host step) := by
  unfold executeReviewGate
  refine .bind (moves_ofPy _) fun config => .bind (moves_holds host _) fun go =>
    .ite (.pure _) (.ite (moves_voted host _ _) ?_)
  exact .bind (moves_ctx _) fun _ => .bind (moves_ask _) fun _ => .bind (moves_ofPy _) fun _ =>
    .bind (moves_update fun _ => le_rfl) fun _ => .pure _

/-! ### Nested steps -/

section Nested
variable {sub : List Value → Exec W Unit}

theorem moves_loopSequential (hsub : ∀ steps, Moves Advance (sub steps)) (cfg : LoopConfig)
    (outer : Dict) (items : List Value) (index : ℕ) :
    Moves Advance (loopSequential sub cfg outer items index) := by
  induction items generalizing index with
  | nil => exact .pure _
  | cons item items ih =>
    refine .bind (moves_update fun _ => le_rfl) fun _ => .bind (moves_ctx _) fun _ =>
      .bind (moves_ctx _) fun _ => .bind (moves_ofPy _) fun steps => .bind (hsub steps) fun _ =>
      .bind (moves_ctx _) fun _ => .bind (moves_ctx _) fun _ => .bind (moves_ctx _) fun _ =>
      .ite (.pure _) ?_
    exact .bind (ih (index + 1)) fun _ => .pure _

theorem moves_isolated {α : Type} {enter : ExecutionContext → ExecutionContext} {m : Exec W α}
    (hm : Moves Advance m) : Moves Advance
      (isolated enter (fun before after => { before with payload := after.payload }) m) :=
  fun s => ⟨le_rfl, (hm { s with ctx := enter s.ctx }).visited⟩

theorem moves_loopChildren (hsub : ∀ steps, Moves Advance (sub steps)) (cfg : LoopConfig)
    (outer : Dict) (items : List Value) (index : ℕ) :
    Moves Advance (loopChildren sub cfg outer items index) := by
  induction items generalizing index with
  | nil => exact .pure _
  | cons item items ih =>
    refine .bind (moves_isolated ?_) fun _ => .bind (ih (index + 1)) fun _ => .pure _
    exact .bind (moves_ofPy _) fun steps => .bind (hsub steps) fun _ => moves_ctx _

theorem moves_mergeChildren (children : List (ℕ × Value × ChildEffects)) :
    Moves Advance (mergeChildren host children) := by
  induction children with
  | nil => exact .pure _
  | cons child children ih =>
    obtain ⟨index, item, child⟩ := child
    exact .bind (moves_ctx _) fun _ => .bind (moves_update fun _ => rank_pyMerge host.py _ _)
      fun _ => .bind (moves_ctx _) fun _ => .bind ih fun _ => .pure _

theorem moves_loopIterations (hsub : ∀ steps, Moves Advance (sub steps)) (parallel : Bool)
    (cfg : LoopConfig) (outer : Dict) (items : List Value) :
    Moves Advance (loopIterations host sub parallel cfg outer items) := by
  refine .ite (.bind (moves_ofPy _) fun _ => .bind (moves_loopChildren hsub cfg outer items 0)
    fun children => ?_) ?_
  · exact .ite (moves_fail _) (.bind (moves_mergeChildren host children) fun _ =>
      .bind (moves_update fun _ => le_rfl) fun _ => .pure _)
  · exact .bind (moves_loopSequential hsub cfg outer items 0) fun _ =>
      .bind (moves_update fun _ => le_rfl) fun _ => .pure _

theorem moves_loop (hsub : ∀ steps, Moves Advance (sub steps)) (depth : ℕ) (step : Value) :
    Moves Advance (executeLoop host sub depth step) := by
  refine .ite (moves_fail _) (.bind (moves_ofPy _) fun _ => .bind (moves_view host) fun _ =>
    .bind (moves_ofPy _) fun _ => .bind (moves_ctx _) fun _ => ?_)
  exact .bind (moves_loopIterations host hsub _ _ _ _) fun _ => .pure _

theorem moves_branches (hsub : ∀ steps, Moves Advance (sub steps)) (view : Value)
    (default : Option Value) (branches : List Value) (i : ℕ) :
    Moves Advance (tryBranches host sub view default branches i) := by
  induction branches generalizing i with
  | nil =>
    exact .bind (moves_ofPy _) fun steps => .ite (.pure _) (.bind (hsub steps) fun _ => .pure _)
  | cons branch branches ih =>
    refine .bind (moves_ofPy _) fun _ => .ite ?_ (ih (i + 1))
    exact .bind (moves_ofPy _) fun steps => .bind (hsub steps) fun _ => .pure _

theorem moves_branch (hsub : ∀ steps, Moves Advance (sub steps)) (step : Value) :
    Moves Advance (executeBranch host sub step) :=
  .bind (moves_ofPy _) fun branches => .bind (moves_view host) fun view =>
    moves_branches host hsub view _ branches 0

theorem moves_visit (id : String) : Moves Advance (visit id : Exec W Unit) :=
  fun _ => ⟨le_rfl, List.suffix_cons _ _⟩

theorem moves_subworkflow (hsub : ∀ steps, Moves Advance (sub steps)) (depth : ℕ) (step : Value) :
    Moves Advance (executeSubworkflow host sub depth step) := by
  refine .ite (moves_fail _) (.bind (.gets _) fun seen => .ite (moves_fail _) ?_)
  split
  · exact moves_fail _
  · exact .bind (moves_visit _) fun _ => .bind (hsub _) fun _ => .bind (moves_ctx _) fun _ =>
      .pure _

theorem moves_stepBody (hsub : ∀ steps, Moves Advance (sub steps)) (rules : Dict) (depth : ℕ)
    (step : Value) : Moves Advance (executeStepBody host sub rules depth step) := by
  have hmap : ∀ {m : Exec W Value}, Moves Advance m → Moves Advance (some <$> m) :=
    fun hm => .bind hm fun _ => .pure _
  unfold executeStepBody
  cases stepKind step with
  | connector => exact hmap (moves_connector host step)
  | rule => exact hmap (moves_rule host rules step)
  | scorecard => exact hmap (moves_scorecard host step)
  | decisionTable => exact hmap (moves_decisionTable host step)
  | transform => exact hmap (moves_transform host step)
  | action => exact hmap (moves_action host step)
  | model => exact hmap (moves_model host step)
  | reviewGate => exact hmap (moves_reviewGate host step)
  | outcome => exact hmap (moves_outcome host step)
  | loop => exact hmap (moves_loop host hsub depth step)
  | branch => exact hmap (moves_branch host hsub step)
  | workflow => exact hmap (moves_subworkflow host hsub depth step)
  | monitor => exact hmap (moves_monitor host step)
  | unhashable => exact .pure _
  | other => exact .pure _

end Nested

variable {body : Value → Exec W (Option Value)}

theorem moves_runStep (hbody : ∀ step, Moves Advance (body step)) (depth index : ℕ) (step : Value) :
    Moves Advance (runStep host body depth index step) := by
  refine .bind (moves_when (moves_fail _)) fun _ => .bind (moves_checkBudget host) fun _ =>
    .bind (moves_when (moves_update fun _ => le_rfl)) fun _ => .ite ?_ ?_
  · exact .bind (moves_update fun _ => le_rfl) fun _ => .pure _
  · refine .bind (moves_holds host _) fun go => .ite (.bind (moves_trace _) fun _ => .pure _) ?_
    refine .bind (.attempt (hbody step)) fun answer => ?_
    match answer with
    | .ok result => exact .bind (moves_trace _) fun _ => .bind (moves_ctx _) fun _ => .pure _
    | .error .budgetExceeded => exact .raise _
    | .error (.error x) =>
      exact .bind (moves_when (moves_vote host _)) fun _ =>
        .bind (moves_when (moves_update fun _ => le_rfl)) fun _ =>
        .bind (moves_trace _) fun _ => .bind (moves_ctx _) fun _ => .pure _

theorem moves_runFrom
    (hbody : ∀ step, Moves Advance (body step)) (depth : ℕ) (steps : List Value) (index : ℕ) :
    Moves Advance (runFrom host body depth steps index) := by
  induction steps generalizing index with
  | nil => exact .pure _
  | cons step steps ih =>
    exact .bind (moves_runStep host hbody depth index step) fun go =>
      .ite (ih (index + 1)) (.pure _)

theorem runSteps_advances (rules : Dict) (frames : ℕ) (steps : List Value) (depth start : ℕ) :
    Moves Advance (runSteps host rules frames steps depth start) := by
  induction frames generalizing steps depth start with
  | zero => exact moves_fail _
  | succ frames ih =>
    exact moves_runFrom host
      (moves_stepBody host (fun nested => ih nested (depth + 1) 0) rules depth)
      depth (steps.drop start) start

end Advances

/-! ### The order of the steps of the core -/

section Core

open Backtest

variable {py : PyText} {ev : Evaluators} {catalog : Catalog}

variable {vs ws : List String} {steps steps' : List Value}

theorem strongest_perm (h : vs.Perm ws) : strongest vs = strongest ws := by
  induction h with
  | nil => rfl
  | cons v _ ih => simp only [strongest, List.map_cons, List.foldr_cons] at ih ⊢; rw [ih]
  | swap v w us =>
    simp only [strongest, List.map_cons, List.foldr_cons]
    exact max_left_comm _ _ _
  | trans _ _ ih ih' => exact ih.trans ih'

theorem mergeAll_perm (h : vs.Perm ws) {a : String} (ha : Named a) :
    mergeAll vs a = mergeAll ws a := by
  grind [named_inj, mergeAll_named, rank_mergeAll, strongest_perm]

theorem coreVotes_perm (h : steps.Perm steps') (hvs : coreVotes py ev catalog steps = .ok vs) :
    ∃ ws, coreVotes py ev catalog steps' = .ok ws ∧ vs.Perm ws := by
  induction h generalizing vs with
  | nil => exact ⟨vs, hvs, .refl _⟩
  | cons step _ ih =>
    rw [coreVotes_cons] at hvs
    obtain ⟨v, hv, hvs⟩ := bind_eq_ok.1 hvs
    obtain ⟨us, hus, rfl⟩ := map_eq_ok.1 hvs
    obtain ⟨ws, hws, hperm⟩ := ih hus
    refine ⟨v.toList ++ ws, ?_, hperm.append_left _⟩
    rw [coreVotes_cons, hv, hws]
    rfl
  | swap first second steps =>
    rw [coreVotes_cons] at hvs
    obtain ⟨v, hv, hvs⟩ := bind_eq_ok.1 hvs
    obtain ⟨ts, hts, rfl⟩ := map_eq_ok.1 hvs
    rw [coreVotes_cons] at hts
    obtain ⟨w, hw, hts⟩ := bind_eq_ok.1 hts
    obtain ⟨us, hus, rfl⟩ := map_eq_ok.1 hts
    refine ⟨w.toList ++ (v.toList ++ us), ?_, ?_⟩
    · rw [coreVotes_cons, hw, coreVotes_cons, hv, hus]
      rfl
    · grind
  | trans _ _ ih ih' => grind

theorem coreDecide_perm (h : steps.Perm steps') {o : String}
    (ho : coreDecide py ev catalog steps = .ok o) : coreDecide py ev catalog steps' = .ok o := by
  rw [coreDecide_votes] at ho ⊢
  obtain ⟨vs, hvs, rfl⟩ := map_eq_ok.1 ho
  obtain ⟨ws, hws, hperm⟩ := coreVotes_perm h hvs
  rw [hws, mergeAll_perm hperm (Or.inl rfl)]
  rfl

end Core

/-- **No step softens a decision**: not in a run of the executor, however its steps nest and
    fail, and in the core the order of the steps does not count. -/
theorem no_step_softens {W : Type} (host : Host W) (rules : Dict) (py : PyText) (ev : Evaluators)
    (catalog : Catalog) :
    (∀ (frames : ℕ) (steps : List Value) (depth start : ℕ) (r : Run W),
      rank r.ctx.outcome ≤ rank (runSteps host rules frames steps depth start r).2.ctx.outcome) ∧
    ∀ (steps steps' : List Value), steps.Perm steps' → ∀ o,
      coreDecide py ev catalog steps = .ok o ↔ coreDecide py ev catalog steps' = .ok o :=
  ⟨fun frames steps depth start r => (runSteps_advances host rules frames steps depth start r).rank,
    fun _ _ h _ => ⟨coreDecide_perm h, coreDecide_perm h.symm⟩⟩

def mixedOutcomes : List Value :=
  [.dict [("type", .str "outcome"), ("ref_id", .str "reject")],
    .dict [("type", .str "outcome"), ("ref_id", .str "approve")]]

/-- Either way round they are a rejection. -/
theorem mixed_outcomes_reject : coreDecide asciiText (quietHost.evaluators []) ⟨[], [], []⟩
    mixedOutcomes.reverse = .ok "reject" :=
  ((no_step_softens quietHost [] asciiText (quietHost.evaluators []) ⟨[], [], []⟩).2 mixedOutcomes
    mixedOutcomes.reverse (List.reverse_perm _).symm "reject").1 rfl

end RuleMind
