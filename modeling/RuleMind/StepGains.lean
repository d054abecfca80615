/-
  What a body of gates adds to a run, in `app/executor.py`.
-/
import RuleMind.CallChain
import RuleMind.FastPath

namespace RuleMind

open Exec

/-! ### Merging forks -/

variable {a : String} {votes : List String}

theorem mergeAll_weak (h : strongest votes ≤ rank a) : mergeAll votes a = a := by
  induction votes with
  | nil => rfl
  | cons v votes ih =>
    have hmax : max (rank v) (strongest votes) ≤ rank a := h
    show mergeAll votes (mergeOutcome a v) = a
    rw [mergeOutcome_eq, if_neg (by omega)]
    exact ih (by omega)

theorem mergeAll_strong {b : String} (ha : rank a < strongest votes)
    (hb : rank b < strongest votes) : mergeAll votes a = mergeAll votes b := by
  have hranka := rank_mergeAll votes a
  have hrankb := rank_mergeAll votes b
  exact named_inj (Or.inr (by omega)) (Or.inr (by omega)) (by omega)

theorem mergeAll_eq_self :
    mergeAll votes a = a ↔ strongest votes ≤ rank a := by grind [mergeAll_weak, rank_mergeAll]

theorem merge_fork {b : String} (h : rank a ≤ rank b) :
    mergeOutcome b (mergeAll votes a) = mergeAll votes b := by
  rw [mergeOutcome_eq, rank_mergeAll]
  by_cases hweak : strongest votes ≤ rank b
  · rw [if_neg (by omega), mergeAll_weak hweak]
  · rw [if_pos (by omega)]
    exact mergeAll_strong (by omega) (by omega)

theorem mergeAll_append (votes more : List String) (a : String) :
    mergeAll (votes ++ more) a = mergeAll more (mergeAll votes a) := List.foldl_append

theorem mergeAll_ne_empty (h : a ≠ "") :
    mergeAll votes a ≠ "" := by grind [rank, mergeAll_weak, rank_mergeAll]

theorem pyMerge_text (py : PyText) (ha : a ≠ "") (v : Value) :
    pyMergeOutcome py a v = mergeAll (Backtest.voteText py v).toList a := by
  unfold pyMergeOutcome Backtest.voteText
  rw [if_neg ha]
  split
  · rfl
  · rw [mergeOutcome_eq, if_neg (lt_irrefl _)]
    rfl

theorem updateKeys_lookup_congr {d d' : Dict} {key : String} (h : d.lookup key = d'.lookup key)
    (e : Dict) : (updateKeys d e).lookup key = (updateKeys d' e).lookup key := by
  induction e generalizing d d' with
  | nil => exact h
  | cons kv e ih =>
    refine ih ?_
    rw [lookup_setKey, lookup_setKey, h]

/-- The names of the view that stand for what the steps so far came to, or for the run. -/
def runNames : List String :=
  ["scorecard", "decision_table", "computed", "transforms", "outcome", "execution_id", "secrets",
    "review"]

theorem view_reads {W : Type} (host : Host W) {c c' : ExecutionContext}
    (hpayload : c.payload = c'.payload) (hvars : c.vars = c'.vars)
    (hscope : c.loopScope = c'.loopScope) {key : String} (hkey : key ∉ runNames) :
    (contextView host c).field key = (contextView host c').field key := by
  simp only [runNames, List.mem_cons, not_or, List.not_mem_nil, not_false_eq_true, and_true]
    at hkey
  obtain ⟨hscorecard, htable, hcomputed, htransforms, houtcome, hid, hsecrets, hreview⟩ := hkey
  have hlast : ∀ (d : Dict) (computed transforms outcome id secrets review : Value),
      (updateKeys d [("computed", computed), ("transforms", transforms), ("outcome", outcome),
        ("execution_id", id), ("secrets", secrets), ("review", review)]).lookup key =
        d.lookup key := by
    intro d computed transforms outcome id secrets review
    simp only [updateKeys, List.foldl_cons, List.foldl_nil, lookup_setKey, hcomputed, htransforms,
      houtcome, hid, hsecrets, hreview, if_false]
  show List.lookup key _ = List.lookup key _
  rw [hlast, hlast, hscope]
  refine updateKeys_lookup_congr ?_ _
  simp_all [List.lookup_cons, beq_false_of_ne]

/-! ### What a step adds -/

structure Gain where
  votes : List String
  results : List Value

namespace Gain

def nothing : Gain := ⟨[], []⟩

def and (g h : Gain) : Gain := ⟨g.votes ++ h.votes, g.results ++ h.results⟩

end Gain

section Gains
variable {W : Type} (host : Host W) (rules : Dict)

def escalated : Gain := ⟨["review"], []⟩

/-- What a rule, a scorecard, a decision table or an outcome adds when it runs. -/
def gateGain (vars : Dict) (step : Value) : Gain :=
  match stepKind step with
  | .rule =>
    match (rules.lookup (stepRef host.py step)).filter Value.truthy with
    | none => escalated
    | some rule =>
      match evaluateRuleDefinition host.py (host.evaluators vars) rule with
      | .error _ => escalated
      | .ok result =>
        ⟨(Backtest.voteText host.py ((result.field "outcome").getD .null)).toList,
          [.dict (setKey (updateKeys [("rule_id", .str (stepRef host.py step))]
            (result.asDict.getD [])) "ruleId" (.str (stepRef host.py step)))]⟩
  | .decisionTable =>
    match (host.decisionTables.lookup (stepRef host.py step)).filter Value.truthy with
    | none => escalated
    | some table =>
      match (host.evaluators vars).decisionTable table with
      | .error _ => escalated
      | .ok result => ⟨(Backtest.voteText host.py ((result.field "outcome").getD .null)).toList, []⟩
  | .scorecard =>
    match (host.scorecards.lookup (stepRef host.py step)).filter Value.truthy with
    | none => escalated
    | some card =>
      match (host.evaluators vars).scorecard card with
      | .error _ => escalated
      | .ok _ => .nothing
  | .outcome => ⟨(Backtest.voteText host.py (outcomeCandidate step)).toList, []⟩
  | _ => .nothing

/-- What a turn of the step adds; a condition may raise. -/
def stepGain (r : Run W) (step : Value) : Except PyError Gain :=
  (guard host step r).map fun go => if go then gateGain host rules r.ctx.vars step else .nothing

/-- What the steps add, up to a condition that raises; and whether one does. -/
def bodyGain (r : Run W) : List Value → Gain × Bool
  | [] => (.nothing, false)
  | step :: steps =>
    match stepGain host rules r step with
    | .error _ => (.nothing, true)
    | .ok g => (g.and (bodyGain r steps).1, (bodyGain r steps).2)

/-- A run that is further on by a gain, on the same inputs. -/
structure Gained (g : Gain) (r r' : Run W) : Prop where
  outcome : r'.ctx.outcome = mergeAll g.votes r.ctx.outcome
  results : r'.ctx.ruleResults = r.ctx.ruleResults ++ g.results
  payload : r'.ctx.payload = r.ctx.payload
  vars : r'.ctx.vars = r.ctx.vars
  status : r'.ctx.status = r.ctx.status
  deadline : r'.ctx.deadline = r.ctx.deadline

/-- The run as the interpreter comes to a step: running, with an outcome, and with time left. -/
structure Underway (r : Run W) : Prop where
  running : r.ctx.status = .running
  outcome : r.ctx.outcome ≠ ""
  inTime : ∀ w, (r.ctx.deadline.map fun d => Int.tdiv (d - (host.now w).1) 1000).any (· ≤ 0) = false

/-- A step of the body: a gate or an outcome that does not abort, and whose condition reads the
    payload, the variables and the names of the loop. -/
structure PlainGate (step : Value) : Prop where
  kind : stepKind step = .rule ∨ stepKind step = .scorecard ∨ stepKind step = .decisionTable ∨
    stepKind step = .outcome
  goesOn : (stepConfig step).lookup "onFailure" ≠ some (.str "abort")
  reads : ∀ r r' : Run W, r.ctx.payload = r'.ctx.payload → r.ctx.vars = r'.ctx.vars →
    r.ctx.loopScope = r'.ctx.loopScope → guard host step r = guard host step r'

section Turn
variable {host rules} {r r' r'' : Run W} {g h : Gain} {step : Value}

namespace Gained

theorem refl (r : Run W) : Gained .nothing r r :=
  ⟨rfl, (List.append_nil _).symm, rfl, rfl, rfl, rfl⟩

theorem trans (hg : Gained g r r') (hh : Gained h r' r'') : Gained (g.and h) r r'' where
  outcome := by rw [hh.outcome, hg.outcome, Gain.and, mergeAll_append]
  results := by rw [hh.results, hg.results, Gain.and, List.append_assoc]
  payload := hh.payload.trans hg.payload
  vars := hh.vars.trans hg.vars
  status := hh.status.trans hg.status
  deadline := hh.deadline.trans hg.deadline

theorem congr_left (hg : Gained g r r'') (ho : r.ctx.outcome = r'.ctx.outcome)
    (hr : r.ctx.ruleResults = r'.ctx.ruleResults) (hp : r.ctx.payload = r'.ctx.payload)
    (hv : r.ctx.vars = r'.ctx.vars) (hs : r.ctx.status = r'.ctx.status)
    (hd : r.ctx.deadline = r'.ctx.deadline) : Gained g r' r'' :=
  ⟨ho ▸ hg.outcome, hr ▸ hg.results, hp ▸ hg.payload, hv ▸ hg.vars, hs ▸ hg.status,
    hd ▸ hg.deadline⟩

theorem underway (hg : Gained g r r') (hr : Underway host r) : Underway host r' where
  running := hg.status.trans hr.running
  outcome := by
    rw [hg.outcome]
    exact mergeAll_ne_empty hr.outcome
  inTime := by
    rw [hg.deadline]
    exact hr.inTime

end Gained

theorem vote_gained (host : Host W) (hr : r.ctx.outcome ≠ "") (v : Value) :
    ∃ r', vote host v r = (.ok (), r') ∧
      Gained ⟨(Backtest.voteText host.py v).toList, []⟩ r r' ∧
      r'.ctx.loopScope = r.ctx.loopScope :=
  ⟨_, rfl, ⟨pyMerge_text host.py hr v, (List.append_nil _).symm, rfl, rfl, rfl, rfl⟩, rfl⟩

theorem checkBudget_inTime (hr : Underway host r) :
    checkBudget host r = (.ok (), { r with world := (host.now r.world).2 }) := by
  have hleft := hr.inTime r.world
  show (if (r.ctx.deadline.map fun d => Int.tdiv (d - (host.now r.world).1) 1000).any (· ≤ 0) = true
    then Prog.raise .budgetExceeded else pure () : Exec W Unit)
      { r with world := (host.now r.world).2 } = _
  rw [hleft]
  rfl

/-- A body that comes to its end, or that raises where it is a gate. -/
def Answers (g : Gain) (r : Run W) (x : Except Raised (Option Value) × Run W) (step : Value) :
    Prop :=
  (∃ result r', x = (.ok result, r') ∧ Gained g r r' ∧ r'.ctx.loopScope = r.ctx.loopScope) ∨
    ∃ e, x = (.error (.error e), r) ∧ g = escalated ∧ isGate (stepKind step) = true

theorem rule_answers (hr : r.ctx.outcome ≠ "") (hk : stepKind step = .rule) :
    Answers (gateGain host rules r.ctx.vars step) r ((some <$> executeRule host rules step) r)
      step := by
  have hgate : isGate (stepKind step) = true := by
    rw [hk]
    rfl
  simp only [gateGain, hk, executeRule]
  cases (rules.lookup (stepRef host.py step)).filter Value.truthy with
  | none => exact Or.inr ⟨.valueError, rfl, rfl, hgate⟩
  | some rule =>
    simp only [map_eq_pure_bind, bind_assoc, pure_bind]
    rw [Prog.bind_ok (show ctx (·.vars) r = (.ok r.ctx.vars, r) from rfl)]
    cases evaluateRuleDefinition host.py (host.evaluators r.ctx.vars) rule with
    | error e => exact Or.inr ⟨e, rfl, rfl, hgate⟩
    | ok result =>
      refine Or.inl ⟨some result, _, rfl, ⟨?_, rfl, rfl, rfl, rfl, rfl⟩, rfl⟩
      exact pyMerge_text host.py hr _

theorem decisionTable_answers (hr : r.ctx.outcome ≠ "") (hk : stepKind step = .decisionTable) :
    Answers (gateGain host rules r.ctx.vars step) r ((some <$> executeDecisionTable host step) r)
      step := by
  have hgate : isGate (stepKind step) = true := by
    rw [hk]
    rfl
  simp only [gateGain, hk, executeDecisionTable]
  cases (host.decisionTables.lookup (stepRef host.py step)).filter Value.truthy with
  | none => exact Or.inr ⟨.valueError, rfl, rfl, hgate⟩
  | some table =>
    simp only [map_eq_pure_bind, bind_assoc]
    rw [Prog.bind_ok (show ctx (·.vars) r = (.ok r.ctx.vars, r) from rfl)]
    cases (host.evaluators r.ctx.vars).decisionTable table with
    | error e => exact Or.inr ⟨e, rfl, rfl, hgate⟩
    | ok result =>
      rw [Prog.bind_ok (show (ofPy (.ok result) : Exec W Value) r = (.ok result, r) from rfl)]
      cases hv : (result.field "outcome").filter Value.truthy with
      | none =>
        have hnone : Backtest.voteText host.py ((result.field "outcome").getD .null) = none := by
          unfold Backtest.voteText
          cases ho : result.field "outcome" with
          | none => rfl
          | some o => simp_all
        simp only [hnone]
        exact Or.inl ⟨some result, _, rfl, ⟨rfl, (List.append_nil _).symm, rfl, rfl, rfl, rfl⟩, rfl⟩
      | some o =>
        obtain ⟨ho, htruthy⟩ := Option.filter_eq_some_iff.1 hv
        refine Or.inl ⟨some result, _, rfl, ⟨?_, (List.append_nil _).symm, rfl, rfl, rfl, rfl⟩, rfl⟩
        grind -ring -linarith [pyMergeOutcome_str, pyMerge_text]

theorem scorecard_answers (hk : stepKind step = .scorecard) :
    Answers (gateGain host rules r.ctx.vars step) r ((some <$> executeScorecard host step) r)
      step := by
  have hgate : isGate (stepKind step) = true := by
    rw [hk]
    rfl
  simp only [gateGain, hk, executeScorecard]
  cases (host.scorecards.lookup (stepRef host.py step)).filter Value.truthy with
  | none => exact Or.inr ⟨.valueError, rfl, rfl, hgate⟩
  | some card =>
    simp only [map_eq_pure_bind, bind_assoc, pure_bind]
    rw [Prog.bind_ok (show ctx (·.vars) r = (.ok r.ctx.vars, r) from rfl)]
    cases (host.evaluators r.ctx.vars).scorecard card with
    | error e => exact Or.inr ⟨e, rfl, rfl, hgate⟩
    | ok result =>
      exact Or.inl ⟨some result, _, rfl, ⟨rfl, (List.append_nil _).symm, rfl, rfl, rfl, rfl⟩, rfl⟩

theorem outcome_answers (hr : r.ctx.outcome ≠ "") (hk : stepKind step = .outcome) :
    Answers (gateGain host rules r.ctx.vars step) r ((some <$> executeOutcome host step) r)
      step := by
  simp only [gateGain, hk]
  refine Or.inl ⟨_, _, rfl, ⟨?_, (List.append_nil _).symm, rfl, rfl, rfl, rfl⟩, rfl⟩
  exact pyMerge_text host.py hr _

theorem body_answers (rules : Dict) (hstep : PlainGate host step) (hr : r.ctx.outcome ≠ "")
    (sub : List Value → Exec W Unit) (depth : ℕ) :
    Answers (gateGain host rules r.ctx.vars step) r (executeStepBody host sub rules depth step r)
      step := by
  unfold executeStepBody
  rcases hstep.kind with hk | hk | hk | hk
  · rw [hk]
    exact rule_answers hr hk
  · rw [hk]
    exact scorecard_answers hk
  · rw [hk]
    exact decisionTable_answers hr hk
  · rw [hk]
    exact outcome_answers hr hk

theorem beginTurn (hstep : PlainGate host step) (hr : Underway host r)
    (body : Value → Exec W (Option Value)) (depth index : ℕ) :
    runStep host body (depth + 1) index step r =
      (holds host (((stepConfig step).lookup "condition").getD .null) >>= turn host body step)
        { r with world := (host.now r.world).2 } := by
  have hkind : stepKind step ≠ .other := by
    rcases hstep.kind with hk | hk | hk | hk <;> rw [hk] <;> decide
  unfold runStep
  rw [Prog.bind_ok (when_dict (asDict_of_kind hkind) r), Prog.bind_ok (checkBudget_inTime hr)]
  rfl

theorem turn_raises (hstep : PlainGate host step) (hr : Underway host r) {e : PyError}
    (hguard : guard host step r = .error e) (body : Value → Exec W (Option Value))
    (depth index : ℕ) :
    runStep host body (depth + 1) index step r =
      (.error (.error e), { r with world := (host.now r.world).2 }) := by
  have hholds : holds host (((stepConfig step).lookup "condition").getD .null)
      { r with world := (host.now r.world).2 } =
        (.error (.error e), { r with world := (host.now r.world).2 }) := by
    have hview : view host { r with world := (host.now r.world).2 } =
      (.ok (contextView host r.ctx), { r with world := (host.now r.world).2 }) := rfl
    simp only [guard] at hguard
    unfold holds
    rw [Prog.bind_ok hview]
    split_ifs at hguard ⊢ with hc
    rw [hguard]
    rfl
  rw [beginTurn hstep hr, Prog.bind_error hholds]

theorem holds_nested {go : Bool} (hguard : guard host step r = .ok go) (w : W) :
    holds host (((stepConfig step).lookup "condition").getD .null) { r with world := w } =
      (.ok go, { r with world := w }) := by
  have hview : view host { r with world := w } =
    (.ok (contextView host r.ctx), { r with world := w }) := rfl
  simp only [guard] at hguard
  unfold holds
  rw [Prog.bind_ok hview]
  split_ifs at hguard ⊢ with hc
  · rw [hguard]
    rfl
  · cases hguard
    rfl

theorem turn_gained (hstep : PlainGate host step) (hr : Underway host r)
    (hgain : stepGain host rules r step = .ok g) (sub : List Value → Exec W Unit)
    (depth depth' index : ℕ) : ∃ r',
    runStep host (executeStepBody host sub rules depth') (depth + 1) index step r = (.ok true, r') ∧
      Gained g r r' ∧ r'.ctx.loopScope = r.ctx.loopScope := by
  unfold stepGain at hgain
  obtain ⟨go, hguard, rfl⟩ := map_eq_ok.1 hgain
  rw [beginTurn hstep hr, Prog.bind_ok (holds_nested hguard _)]
  cases go with
  | false => exact ⟨_, rfl, ⟨rfl, (List.append_nil _).symm, rfl, rfl, rfl, rfl⟩, rfl⟩
  | true =>
    rw [if_pos rfl, turn, if_neg (by simp)]
    have hnow : ∀ w, ({ r with world := w } : Run W).ctx = r.ctx := fun _ => rfl
    have houtcome : ({ r with world := (host.now r.world).2 } : Run W).ctx.outcome ≠ "" :=
      hr.outcome
    have hanswer := body_answers rules hstep houtcome sub depth'
    rcases hanswer with ⟨result, r', hbody, hgained, hscope⟩ | ⟨e, hbody, hesc, hgate⟩
    · have hattempt : Prog.attempt (executeStepBody host sub rules depth' step)
          { r with world := (host.now r.world).2 } = (.ok (.ok result), r') := by
        rw [Prog.attempt, hbody]
      have hrun : r'.ctx.status = .running := hgained.status.trans hr.running
      rw [Prog.bind_ok hattempt]
      refine ⟨traced r' (traceEntry step result false), ?_, ⟨hgained.outcome, hgained.results,
        hgained.payload, hgained.vars, hgained.status, hgained.deadline⟩, hscope⟩
      show (Except.ok (decide (r'.ctx.status ≠ .paused ∧ r'.ctx.status ≠ .failed)), _) = _
      rw [hrun]
      rfl
    · have hattempt : Prog.attempt (executeStepBody host sub rules depth' step)
          { r with world := (host.now r.world).2 } =
            (.ok (.error (.error e)), { r with world := (host.now r.world).2 }) := by
        rw [Prog.attempt, hbody]
      rw [Prog.bind_ok hattempt]
      simp only [when, hgate, hstep.goesOn, if_true, if_false]
      obtain ⟨r', hvote, hgained, hscope⟩ := vote_gained host houtcome (.str "review")
      have hrun : r'.ctx.status = .running := hgained.status.trans hr.running
      rw [Prog.bind_ok hvote]
      refine ⟨traced r' (traceEntry step none true), ?_, ?_, hscope⟩
      · show (Except.ok (decide (r'.ctx.status ≠ .failed)), _) = _
        rw [hrun]
        rfl
      · rw [show gateGain host rules r.ctx.vars step = escalated from hesc]
        exact ⟨hgained.outcome, hgained.results, hgained.payload, hgained.vars, hgained.status,
          hgained.deadline⟩

/-! ### What a body and the loops add -/

/-- The inputs of two runs agree, as far as conditions and evaluators read them. -/
structure SameInputs (r r' : Run W) : Prop where
  payload : r.ctx.payload = r'.ctx.payload
  vars : r.ctx.vars = r'.ctx.vars
  loopScope : r.ctx.loopScope = r'.ctx.loopScope

theorem Gained.sameInputs {r₀ : Run W} (hg : Gained g r r')
    (hscope : r'.ctx.loopScope = r.ctx.loopScope) (h : SameInputs r₀ r) : SameInputs r₀ r' :=
  ⟨h.payload.trans hg.payload.symm, h.vars.trans hg.vars.symm, h.loopScope.trans hscope.symm⟩

theorem stepGain_same (rules : Dict) (hstep : PlainGate host step) (h : SameInputs r r') :
    stepGain host rules r step = stepGain host rules r' step := by
  rw [stepGain, stepGain, hstep.reads r r' h.payload h.vars h.loopScope, h.vars]

theorem runFrom_gained {r₀ : Run W} {steps : List Value}
    (hsteps : ∀ step ∈ steps, PlainGate host step) (hr : Underway host r) (h : SameInputs r₀ r)
    (sub : List Value → Exec W Unit) (depth depth' index : ℕ) : ∃ x r',
    runFrom host (executeStepBody host sub rules depth') (depth + 1) steps index r = (x, r') ∧
      Gained (bodyGain host rules r₀ steps).1 r r' ∧ r'.ctx.loopScope = r.ctx.loopScope ∧
      ((bodyGain host rules r₀ steps).2 = false → x = .ok ()) ∧
      ((bodyGain host rules r₀ steps).2 = true → ∃ e, x = .error (.error e)) := by
  induction steps generalizing r index with
  | nil => exact ⟨_, _, rfl, .refl r, rfl, fun _ => rfl, fun hraise => by cases hraise⟩
  | cons step steps ih =>
    have hstep := hsteps step List.mem_cons_self
    have hrest : ∀ s ∈ steps, PlainGate host s := fun s hs => hsteps s (List.mem_cons_of_mem _ hs)
    have hsame := stepGain_same rules hstep h
    unfold runFrom bodyGain
    cases hgain : stepGain host rules r₀ step with
    | error e =>
      have hguard : guard host step r = .error e := by
        rw [hsame, stepGain] at hgain
        cases hg : guard host step r with
        | error e' =>
          rw [hg] at hgain
          cases hgain
          rfl
        | ok go =>
          rw [hg] at hgain
          cases hgain
      rw [Prog.bind_error (turn_raises hstep hr hguard _ depth index)]
      exact ⟨_, _, rfl, .congr_left (.refl _) rfl rfl rfl rfl rfl rfl, rfl,
        fun hok => Bool.noConfusion hok, fun _ => ⟨e, rfl⟩⟩
    | ok g =>
      obtain ⟨r₁, hrun, hgained, hscope⟩ :=
        turn_gained hstep hr (hsame ▸ hgain) sub depth depth' index
      obtain ⟨x, r', hmore, hgained', hscope', hok, hraise⟩ :=
        ih hrest (hgained.underway hr) (hgained.sameInputs hscope h) (index + 1)
      rw [Prog.bind_ok hrun, if_pos rfl]
      exact ⟨x, r', hmore, hgained.trans hgained', hscope'.trans hscope, hok, hraise⟩

end Turn

end Gains

end RuleMind
