/-
  The fast path: `is_fast_servable` of `app/fast_decide.py`, and when the pure core
  that serves a policy decides as the executor does.
-/
import RuleMind.PausedRun

namespace RuleMind

open Exec

/-! ### Servable policies -/

/-- `_IO_STEP_TYPES`. -/
def ioKinds : List StepKind :=
  [.action, .reviewGate, .transform, .model, .loop, .branch, .workflow, .monitor]

def isFastServable (steps : List Value) : Bool := !steps.any fun step => stepKind step ∈ ioKinds

/-! ### Plain steps -/

/-- The outcome of the step is written where both look for it. -/
def PlainOutcome (step : Value) : Prop :=
  (step.field "ref_id").any Value.truthy = true ∨
    ((step.field "ref").any Value.truthy = false ∧
      (step.field "config").all (fun v => !v.truthy || v.asDict.isSome) = true)

variable {step definition : Value} {collection : Dict}

theorem stepConfig_plain
    (h : (step.field "config").all (fun v => !v.truthy || v.asDict.isSome) = true) :
    (Value.orElse (step.field "config") (.dict [])).asDict = some (stepConfig step) := by
  unfold stepConfig
  cases hc : step.field "config" with
  | none => rfl
  | some v =>
    rw [hc] at h
    cases ht : v.truthy with
    | true =>
      rw [Value.orElse_of_any rfl ht]
      grind [Option.isSome_iff_exists]
    | false =>
      rw [Value.orElse_of_not_any _ (by simp [ht])]
      match v with
      | .dict [] => rfl
      | .dict (_ :: _) => cases ht
      | .null | .bool _ | .int _ | .float _ | .inf _ | .str _ | .list _ => rfl

theorem coreCandidate_plain (h : PlainOutcome step) :
    coreCandidate step = .ok (outcomeCandidate step) := by
  unfold coreCandidate outcomeCandidate refId
  cases hid : (step.field "ref_id").any Value.truthy with
  | true =>
    obtain ⟨v, hv, ht⟩ : ∃ v, step.field "ref_id" = some v ∧ v.truthy = true := by
      cases hf : step.field "ref_id" with
      | none => rw [hf] at hid; cases hid
      | some v => exact ⟨v, rfl, by rw [hf] at hid; exact hid⟩
    rw [Value.orElse_of_any hv ht, Value.orElse_of_any hv ht, if_pos ht]
  | false =>
    obtain ⟨href, hconfig⟩ : (step.field "ref").any Value.truthy = false ∧
        (step.field "config").all (fun v => !v.truthy || v.asDict.isSome) = true := by
      rcases h with h | h
      · rw [hid] at h
        cases h
      · exact h
    have hnot : ¬ ((step.field "ref").getD .null).truthy = true := by
      cases hf : step.field "ref" with
      | none => exact Bool.false_ne_true
      | some v => rw [hf] at href; simpa using href
    simp_all [Value.orElse_of_not_any, stepConfig_plain]

/-- The definition a gate names, found under the same key by both. -/
def Resolved (collection : Dict) (step definition : Value) : Prop :=
  ∃ s, refId step = .str s ∧ (collection.lookup s).filter Value.truthy = some definition

theorem Resolved.core (h : Resolved collection step definition) :
    pyGetTruthy collection (refId step) = .ok (some definition) := by
  obtain ⟨s, hs, hd⟩ := h
  rw [hs]
  exact congrArg Except.ok hd

theorem Resolved.executor (py : PyText) (h : Resolved collection step definition) :
    (collection.lookup (stepRef py step)).filter Value.truthy = some definition := by
  obtain ⟨s, hs, hd⟩ := h
  have href : stepRef py step = s := by
    unfold stepRef
    rw [hs]
    by_cases he : s = ""
    · rw [he]
      rfl
    · rw [if_pos (by simpa [Value.truthy] using he)]
      rfl
  rw [href]
  exact hd

section Plain
variable {W : Type} (host : Host W) (rules : Dict)

def evaluatorsOf (r : Run W) : Evaluators := host.evaluators r.ctx.vars

/-- Both read the step alike in this state: a gate names a definition and its evaluation
    returns, an outcome is written where both look for it, a source does not end the
    run. -/
def PlainBody (step : Value) (r : Run W) : Prop :=
  match stepKind step with
  | .rule => ∃ rule result, Resolved rules step rule ∧
      evaluateRuleDefinition host.py (evaluatorsOf host r) rule = .ok result
  | .scorecard => ∃ card result, Resolved host.scorecards step card ∧
      (evaluatorsOf host r).scorecard card = .ok result
  | .decisionTable => ∃ table result, Resolved host.decisionTables step table ∧
      (evaluatorsOf host r).decisionTable table = .ok result
  | .outcome => PlainOutcome step
  | .connector => (stepConfig step).lookup "onFailure" ≠ some (.str "abort") ∨
      ∃ v, (executeConnector host step r).1 = .ok v
  | _ => False

/-- The step casts no vote in the core: a source, a gate that names nothing, a scorecard that
    evaluates. -/
def Silent (step : Value) (r : Run W) : Prop :=
  match stepKind step with
  | .connector => True
  | .rule => pyGetTruthy rules (refId step) = .ok none
  | .decisionTable => pyGetTruthy host.decisionTables (refId step) = .ok none
  | .scorecard => pyGetTruthy host.scorecards (refId step) = .ok none ∨
      ∃ card result, Resolved host.scorecards step card ∧
        (evaluatorsOf host r).scorecard card = .ok result
  | _ => False

/-- Whether the executor runs the step in this state: it has no guard, or its guard holds. -/
def guard (step : Value) (r : Run W) : Except PyError Bool :=
  let condition := ((stepConfig step).lookup "condition").getD .null
  if condition.truthy then host.evaluateCondition condition (contextView host r.ctx) else .ok true

/-- The step is run and both read it alike, or it is skipped and casts no vote anyway. -/
def PlainStep (step : Value) (r : Run W) : Prop :=
  (guard host step r = .ok true ∧ PlainBody host rules step r) ∨
    (guard host step r = .ok false ∧ Silent host rules step r)

/-! ### One turn of the executor's loop -/

def started (r : Run W) (index : ℕ) (w : W) : Run W :=
  { r with ctx := { r.ctx with currentStepIndex := index }, world := w }

def traced (r : Run W) (entry : Value) : Run W :=
  { r with ctx := { r.ctx with stepTrace := r.ctx.stepTrace ++ [entry] } }

theorem checkBudget_cases (r : Run W) :
    (∃ r', checkBudget host r = (.error .budgetExceeded, r')) ∨
      ∃ w, checkBudget host r = (.ok (), { r with world := w }) := by
  obtain ⟨b, hb⟩ : ∃ b : Bool, checkBudget host r =
      (if b = true then Prog.raise .budgetExceeded else pure () : Exec W Unit)
        { r with world := (host.now r.world).2 } := ⟨_, rfl⟩
  cases b with
  | true => exact Or.inl ⟨_, hb⟩
  | false => exact Or.inr ⟨_, hb⟩

def turn (body : Value → Exec W (Option Value)) (step : Value) (go : Bool) : Exec W Bool :=
  if !go then do
    trace (.dict [("step", step), ("skipped", .bool true),
      ("condition", ((stepConfig step).lookup "condition").getD .null)])
    return true
  else do
    let answer ← Prog.attempt (body step)
    match answer with
    | .ok result => do
      trace (traceEntry step result false)
      let status ← ctx (·.status)
      return status ≠ .paused ∧ status ≠ .failed
    | .error .budgetExceeded => Prog.raise .budgetExceeded
    | .error (.error _) => do
      when (isGate (stepKind step)) (vote host (.str "review"))
      when ((stepConfig step).lookup "onFailure" = some (.str "abort"))
        (update fun c => { c with status := .failed })
      trace (traceEntry step none true)
      let status ← ctx (·.status)
      return status ≠ .failed

variable {host rules} {body : Value → Exec W (Option Value)} {step : Value} {r : Run W} {w : W}
  {go : Bool}

theorem holds_started (hg : guard host step r = .ok go) (index : ℕ) (w : W) :
    holds host (((stepConfig step).lookup "condition").getD .null) (started r index w) =
      (.ok go, started r index w) := by
  have hview : view host (started r index w) = (.ok (contextView host r.ctx), started r index w) :=
    rfl
  simp only [guard] at hg
  unfold holds
  rw [Prog.bind_ok hview]
  split_ifs at hg ⊢ with hc
  · rw [hg]
    rfl
  · cases hg
    rfl

theorem when_dict (hdict : step.asDict.isSome = true) (r : Run W) :
    when step.asDict.isNone (fail .attributeError) r = (.ok (), r) := by
  rw [when, if_neg (by simp [Option.isSome_iff_ne_none.1 hdict])]
  rfl

theorem runStep_eq (hdict : step.asDict.isSome = true) (hdebug : host.debugStopBefore = none)
    (hb : checkBudget host r = (.ok (), { r with world := w }))
    (hg : guard host step r = .ok go) (index : ℕ) :
    runStep host body 0 index step r = turn host body step go (started r index w) := by
  have hstop : ¬ (0 = 0 ∧ host.debugStopBefore.any (· ≤ index) = true) := by simp [hdebug]
  have hindex : when (0 = 0) (update fun c => { c with currentStepIndex := index })
      { r with world := w } = (.ok (), started r index w) := rfl
  unfold runStep
  rw [Prog.bind_ok (when_dict hdict r), Prog.bind_ok hb, Prog.bind_ok hindex, if_neg hstop,
    Prog.bind_ok (holds_started hg index w)]
  rfl

variable {r' : Run W} {o : String} {vars : Dict} {result : Value}

theorem runStep_budget (hdict : step.asDict.isSome = true)
    (hb : checkBudget host r = (.error .budgetExceeded, r')) (index : ℕ) :
    runStep host body 0 index step r = (.error .budgetExceeded, r') := by
  unfold runStep
  rw [Prog.bind_ok (when_dict hdict r), Prog.bind_error hb]

theorem turn_budget (h : body step r = (.error .budgetExceeded, r')) :
    turn host body step true r = (.error .budgetExceeded, r') := by
  have hattempt : Prog.attempt (body step) r = (.ok (.error .budgetExceeded), r') := by
    rw [Prog.attempt, h]
  unfold turn
  rw [if_neg (by simp), Prog.bind_ok hattempt]
  rfl

variable (host) in
theorem turn_answered {result : Option Value} (h : body step r = (.ok result, r'))
    (hr : r'.ctx.status = .running) :
    ∃ entry, turn host body step true r = (.ok true, traced r' entry) := by
  have hattempt : Prog.attempt (body step) r = (.ok (.ok result), r') := by rw [Prog.attempt, h]
  refine ⟨traceEntry step result false, ?_⟩
  unfold turn
  rw [if_neg (by simp), Prog.bind_ok hattempt]
  show (Except.ok (decide (r'.ctx.status ≠ .paused ∧ r'.ctx.status ≠ .failed)), _) = _
  rw [hr]
  rfl

theorem turn_failed {e : PyError} (h : body step r = (.error (.error e), r'))
    (hr : r'.ctx.status = .running) (hgate : isGate (stepKind step) = false)
    (habort : (stepConfig step).lookup "onFailure" ≠ some (.str "abort")) :
    ∃ entry, turn host body step true r = (.ok true, traced r' entry) := by
  have hattempt : Prog.attempt (body step) r = (.ok (.error (.error e)), r') := by
    rw [Prog.attempt, h]
  refine ⟨traceEntry step none true, ?_⟩
  unfold turn
  rw [if_neg (by simp), Prog.bind_ok hattempt]
  simp only [when, hgate, habort, if_false, Bool.false_eq_true]
  show (Except.ok (decide (r'.ctx.status ≠ .failed)), _) = _
  rw [hr]
  rfl

/-! ### The bodies of plain steps -/

structure Votes (vars : Dict) (outcome : String) (r : Run W) : Prop where
  vars : r.ctx.vars = vars
  outcome : r.ctx.outcome = outcome
  running : r.ctx.status = .running

/-- Two runs with the same sources; what decides the outcome of the second is given. -/
structure SameSources (vars : Dict) (outcome : String) (s t : Run W) : Prop where
  payload : s.ctx.payload = t.ctx.payload
  errors : s.ctx.sourceFetchErrors = t.ctx.sourceFetchErrors
  votes : Votes vars outcome t

theorem executeConnector_sources (vars : Dict) (o : String) :
    Prog.Respects (SameSources vars o) (executeConnector host step) := by
  have hwrite : ∀ ref sample,
      Prog.Respects (SameSources vars o) (writePayload ref sample : Exec W Unit) := by
    intro ref sample
    refine .bind (.gets fun _ _ h => h.payload) fun payload => ?_
    split
    · exact .modify fun _ _ h => ⟨rfl, h.errors, h.votes.vars, h.votes.outcome, h.votes.running⟩
    · exact .raise _
  unfold executeConnector
  dsimp only
  refine .bind (.gets fun _ _ h => h.errors) fun errors => ?_
  split
  · exact .pure _
  · refine .bind (.gets fun s t h => by simp only [h.payload]) fun payload => ?_
    split
    · exact .bind (.ofExcept _) fun _ => .pure _
    · exact .ite (.pure _) (.bind (.ite (hwrite _ _) (.pure _)) fun _ =>
        .bind (.ofExcept _) fun _ => .pure _)

theorem vars_read (hr : Votes vars o r) : ctx (·.vars) r = (.ok vars, r) := by
  rw [← hr.vars]
  rfl

theorem executeRule_voted {rule : Value} (hrule : Resolved rules step rule) (hr : Votes vars o r)
    (hev : evaluateRuleDefinition host.py (host.evaluators vars) rule = .ok result) :
    ∃ r', executeRule host rules step r = (.ok result, r') ∧
      Votes vars (pyMergeOutcome host.py o ((result.field "outcome").getD .null)) r' := by
  simp only [executeRule, hrule.executor host.py]
  rw [Prog.bind_ok (vars_read hr), hev]
  refine ⟨_, rfl, hr.vars, ?_, hr.running⟩
  rw [← hr.outcome]

theorem executeScorecard_voted {card : Value}
    (hcard : Resolved host.scorecards step card) (hr : Votes vars o r)
    (hev : (host.evaluators vars).scorecard card = .ok result) :
    ∃ r', executeScorecard host step r = (.ok result, r') ∧ Votes vars o r' := by
  simp only [executeScorecard, hcard.executor host.py]
  rw [Prog.bind_ok (vars_read hr), hev]
  exact ⟨_, rfl, hr.vars, hr.outcome, hr.running⟩

theorem pyMergeOutcome_str (py : PyText) (o : String) {v : Value} (h : v.truthy = true) :
    pyMergeOutcome py o (.str (py.str v)) = pyMergeOutcome py o v := by
  have hempty : rank "" = 0 := by decide
  have hmerge : ∀ c : String, mergeOutcome c (if (Value.str (py.str v)).truthy = true then
      py.str (.str (py.str v)) else c) = mergeOutcome c (py.str v) := by
    intro c
    by_cases he : py.str v = ""
    · rw [he, if_neg (by decide), mergeOutcome_eq, mergeOutcome_eq, if_neg (lt_irrefl _),
        if_neg (by omega)]
    · rw [if_pos (by simpa [Value.truthy] using he)]
      rfl
  simp only [pyMergeOutcome, h, if_true, hmerge]

theorem executeDecisionTable_voted {table : Value}
    (htable : Resolved host.decisionTables step table) (hr : Votes vars o r)
    (hev : (host.evaluators vars).decisionTable table = .ok result) :
    ∃ r', executeDecisionTable host step r = (.ok result, r') ∧
      Votes vars (match (result.field "outcome").filter Value.truthy with
        | some v => pyMergeOutcome host.py o v
        | none => o) r' := by
  have hpy : (ofPy (.ok result) : Exec W Value) r = (.ok result, r) := rfl
  simp only [executeDecisionTable, htable.executor host.py]
  rw [Prog.bind_ok (vars_read hr), hev, Prog.bind_ok hpy]
  cases hv : (result.field "outcome").filter Value.truthy with
  | none => exact ⟨_, rfl, hr.vars, hr.outcome, hr.running⟩
  | some v =>
    have ht : v.truthy = true := (Option.filter_eq_some_iff.1 hv).2
    refine ⟨_, rfl, hr.vars, ?_, hr.running⟩
    show pyMergeOutcome host.py r.ctx.outcome (.str (host.py.str v)) = pyMergeOutcome host.py o v
    rw [hr.outcome, pyMergeOutcome_str host.py o ht]

theorem executeOutcome_voted (hr : Votes vars o r) :
    ∃ result r', executeOutcome host step r = (.ok result, r') ∧
      Votes vars (pyMergeOutcome host.py o (outcomeCandidate step)) r' := by
  refine ⟨_, _, rfl, hr.vars, ?_, hr.running⟩
  rw [← hr.outcome]

/-! ### One step on both -/

theorem asDict_of_kind {step : Value} (h : stepKind step ≠ .other) : step.asDict.isSome = true := by
  match step with
  | .dict _ => rfl
  | .null | .bool _ | .int _ | .float _ | .inf _ | .str _ | .list _ => exact absurd rfl h

/-- The catalog of the fast path: what the executor looks its references up in. -/
def catalogOf (host : Host W) (rules : Dict) : Catalog :=
  ⟨rules, host.scorecards, host.decisionTables⟩

theorem coreStep_silent (h : Silent host rules step r) (o : String) :
    coreStep host.py (evaluatorsOf host r) (catalogOf host rules) o step = .ok o := by
  have hdict : step.asDict.isSome = true := asDict_of_kind fun hk => by simp [Silent, hk] at h
  obtain ⟨kvs, hkvs⟩ := Option.isSome_iff_exists.1 hdict
  simp only [Silent] at h
  unfold coreStep
  rw [hkvs]
  cases hk : stepKind step with
  | connector => rfl
  | rule =>
    rw [hk] at h
    simp only [catalogOf, h]
    rfl
  | decisionTable =>
    rw [hk] at h
    simp only [catalogOf, h]
    rfl
  | scorecard =>
    rw [hk] at h
    rcases h with h | ⟨card, result, hcard, hev⟩
    · simp only [catalogOf, h]
      rfl
    · simp only [catalogOf, hcard.core]
      show ((evaluatorsOf host r).scorecard card >>= fun _ => Except.ok o) = _
      rw [hev]
      rfl
  | _ => simp [hk] at h

theorem body_plain (h : PlainBody host rules step r) (hk : stepKind step ≠ .connector)
    (hr : Votes r.ctx.vars o r) (sub : List Value → Exec W Unit) (depth : ℕ) :
    ∃ result r' o', executeStepBody host sub rules depth step r = (.ok (some result), r') ∧
      coreStep host.py (evaluatorsOf host r) (catalogOf host rules) o step = .ok o' ∧
      Votes r.ctx.vars o' r' := by
  have hdict : step.asDict.isSome = true := asDict_of_kind fun hk => by simp [PlainBody, hk] at h
  obtain ⟨kvs, hkvs⟩ := Option.isSome_iff_exists.1 hdict
  have hmap : ∀ {m : Exec W Value} {result r'}, m r = (.ok result, r') →
      (some <$> m : Exec W (Option Value)) r = (.ok (some result), r') := by
    intro m result r' hm
    exact Prog.bind_ok hm
  simp only [PlainBody] at h
  unfold executeStepBody coreStep
  rw [hkvs]
  cases hkind : stepKind step with
  | rule =>
    rw [hkind] at h
    obtain ⟨rule, result, hrule, hev⟩ := h
    obtain ⟨r', hx, hv⟩ := executeRule_voted hrule hr hev
    refine ⟨result, r', _, hmap hx, ?_, hv⟩
    simp only [catalogOf, hrule.core]
    show (evaluateRuleDefinition host.py (evaluatorsOf host r) rule >>= _) = _
    rw [hev]
    rfl
  | scorecard =>
    rw [hkind] at h
    obtain ⟨card, result, hcard, hev⟩ := h
    obtain ⟨r', hx, hv⟩ := executeScorecard_voted hcard hr hev
    refine ⟨result, r', o, hmap hx, ?_, hv⟩
    simp only [catalogOf, hcard.core]
    show ((evaluatorsOf host r).scorecard card >>= _) = _
    rw [hev]
    rfl
  | decisionTable =>
    rw [hkind] at h
    obtain ⟨table, result, htable, hev⟩ := h
    obtain ⟨r', hx, hv⟩ := executeDecisionTable_voted htable hr hev
    refine ⟨result, r', _, hmap hx, ?_, hv⟩
    simp only [catalogOf, htable.core]
    show ((evaluatorsOf host r).decisionTable table >>= _) = _
    rw [hev]
    show (match (result.field "outcome").filter Value.truthy with
      | some v => Except.ok (pyMergeOutcome host.py o v)
      | none => Except.ok o) = _
    split <;> rfl
  | outcome =>
    rw [hkind] at h
    obtain ⟨result, r', hx, hv⟩ : ∃ result r', executeOutcome host step r = (.ok result, r') ∧
        Votes r.ctx.vars (pyMergeOutcome host.py o (outcomeCandidate step)) r' :=
      executeOutcome_voted hr
    refine ⟨result, r', _, hmap hx, ?_, hv⟩
    simp only [coreCandidate_plain h]
    rfl
  | connector => exact absurd hkind hk
  | _ => simp [hkind] at h

theorem PlainBody.started (h : PlainBody host rules step r) (hk : stepKind step ≠ .connector)
    (index : ℕ) (w : W) : PlainBody host rules step (started r index w) := by
  simp only [PlainBody] at h ⊢
  cases hkind : stepKind step with
  | connector => exact absurd hkind hk
  | _ => rw [hkind] at h; exact h

theorem turn_connector (hk : stepKind step = .connector) (h : PlainBody host rules step r)
    (hr : Votes r.ctx.vars o r) (sub : List Value → Exec W Unit) (index : ℕ) (w : W) :
    (∃ r', turn host (executeStepBody host sub rules 0) step true (started r index w) =
        (.error .budgetExceeded, r')) ∨
      ∃ r', turn host (executeStepBody host sub rules 0) step true (started r index w) =
        (.ok true, r') ∧ Votes r.ctx.vars o r' := by
  have hsame : SameSources r.ctx.vars o r (started r index w) :=
    ⟨rfl, rfl, hr.vars, hr.outcome, hr.running⟩
  obtain ⟨hres, hafter⟩ := executeConnector_sources _ _ _ _ hsame
  have hbody : executeStepBody host sub rules 0 step (started r index w) =
      (some <$> executeConnector host step : Exec W (Option Value)) (started r index w) := by
    unfold executeStepBody
    rw [hk]
  have hstays : ∀ {r' : Run W} {entry : Value}, Votes r.ctx.vars o r' →
      Votes r.ctx.vars o (traced r' entry) := fun hv => ⟨hv.vars, hv.outcome, hv.running⟩
  cases hx : executeConnector host step (started r index w) with
  | mk answer r' =>
    rw [hx] at hres hafter
    cases answer with
    | ok v =>
      obtain ⟨entry, ht⟩ := turn_answered host (hbody.trans (Prog.bind_ok hx)) hafter.votes.running
      exact Or.inr ⟨_, ht, hstays hafter.votes⟩
    | error e =>
      have hfail := hbody.trans (Prog.bind_error hx)
      cases e with
      | budgetExceeded => exact Or.inl ⟨_, turn_budget hfail⟩
      | error e =>
        have habort : (stepConfig step).lookup "onFailure" ≠ some (.str "abort") := by
          simp only [PlainBody, hk] at h
          rcases h with h | ⟨v, hv⟩
          · exact h
          · rw [hv] at hres
            cases hres
        obtain ⟨entry, ht⟩ := turn_failed hfail hafter.votes.running (by rw [hk]; rfl) habort
        exact Or.inr ⟨_, ht, hstays hafter.votes⟩

theorem runStep_plain (hdebug : host.debugStopBefore = none) (h : PlainStep host rules step r)
    (hr : Votes r.ctx.vars o r) (sub : List Value → Exec W Unit) (index : ℕ) :
    (∃ r', runStep host (executeStepBody host sub rules 0) 0 index step r =
        (.error .budgetExceeded, r')) ∨
      ∃ r' o', runStep host (executeStepBody host sub rules 0) 0 index step r = (.ok true, r') ∧
        coreStep host.py (evaluatorsOf host r) (catalogOf host rules) o step = .ok o' ∧
        Votes r.ctx.vars o' r' := by
  have hdict : step.asDict.isSome = true := asDict_of_kind fun hk => by
    rcases h with ⟨-, h⟩ | ⟨-, h⟩
    · simp [PlainBody, hk] at h
    · simp [Silent, hk] at h
  rcases checkBudget_cases host r with ⟨r', hb⟩ | ⟨w, hb⟩
  · exact Or.inl ⟨r', runStep_budget hdict hb index⟩
  · rcases h with ⟨hg, h⟩ | ⟨hg, h⟩
    · rw [runStep_eq hdict hdebug hb hg index]
      by_cases hk : stepKind step = .connector
      · rcases turn_connector hk h hr sub index w with ⟨r', ht⟩ | ⟨r', ht, hv⟩
        · exact Or.inl ⟨r', ht⟩
        grind [coreStep_silent, Silent]
      · obtain ⟨result, r', o', hx, hc, hv⟩ := body_plain (h.started hk index w) hk
          ⟨rfl, hr.outcome, hr.running⟩ sub 0
        obtain ⟨entry, ht⟩ := turn_answered host hx hv.running
        exact Or.inr ⟨_, o', ht, hc, hv.vars, hv.outcome, hv.running⟩
    · rw [runStep_eq hdict hdebug hb hg index]
      exact Or.inr ⟨_, o, rfl, coreStep_silent h o, hr.vars, hr.outcome, hr.running⟩

/-! ### The run -/

variable (host rules) in
/-- Every step is plain in the state the executor comes to it in. -/
def PlainRun (frames : ℕ) : List Value → ℕ → Run W → Prop
  | [], _, _ => True
  | step :: steps, index, r =>
    PlainStep host rules step r ∧
      ∀ r', runStep host
          (executeStepBody host (fun nested => runSteps host rules frames nested 1 0) rules 0)
          0 index step r = (.ok true, r') →
        PlainRun frames steps (index + 1) r'

theorem runFrom_plain (hdebug : host.debugStopBefore = none) {frames : ℕ} {steps : List Value}
    {index : ℕ} (h : PlainRun host rules frames steps index r)
    (hr : Votes r.ctx.vars o r) :
    (∃ r', runFrom host
        (executeStepBody host (fun nested => runSteps host rules frames nested 1 0) rules 0)
        0 steps index r = (.error .budgetExceeded, r')) ∨
      ∃ r', runFrom host
          (executeStepBody host (fun nested => runSteps host rules frames nested 1 0) rules 0)
          0 steps index r = (.ok (), r') ∧
        steps.foldlM (coreStep host.py (evaluatorsOf host r) (catalogOf host rules)) o =
          .ok r'.ctx.outcome := by
  induction steps generalizing index r o with
  | nil => exact Or.inr ⟨r, rfl, by rw [hr.outcome]; rfl⟩
  | cons step steps ih =>
    obtain ⟨hstep, hrest⟩ := h
    rcases runStep_plain hdebug hstep hr (fun nested => runSteps host rules frames nested 1 0) index
      with ⟨r', hx⟩ | ⟨r', o', hx, hc, hv⟩
    · exact Or.inl ⟨r', Prog.bind_error hx⟩
    · have hev : evaluatorsOf host r' = evaluatorsOf host r := by
        unfold evaluatorsOf
        rw [hv.vars]
      have hgo := ih (hrest r' hx) ⟨rfl, hv.outcome, hv.running⟩
      rw [hev] at hgo
      unfold runFrom
      rw [Prog.bind_ok hx, if_pos rfl, List.foldlM_cons, hc]
      exact hgo

variable (host rules r) in
/-- Where every step is plain, the core that serves the policy decides as the executor does. -/
theorem fast_path_agrees (frames : ℕ) (steps : List Value) (hdebug : host.debugStopBefore = none)
    (hpending : r.ctx.outcome = "pending") (hrunning : r.ctx.status = .running)
    (hplain : PlainRun host rules frames steps 0 r) :
    (∃ r', runSteps host rules (frames + 1) steps 0 0 r = (.error .budgetExceeded, r')) ∨
      ∃ r', runSteps host rules (frames + 1) steps 0 0 r = (.ok (), r') ∧
        coreDecide host.py (evaluatorsOf host r) (catalogOf host rules) steps =
          .ok (settle r'.ctx.outcome) := by
  rcases runFrom_plain hdebug hplain ⟨rfl, hpending, hrunning⟩ with ⟨r', hx⟩ | ⟨r', hx, hc⟩
  · exact Or.inl ⟨r', hx⟩
  · refine Or.inr ⟨r', hx, ?_⟩
    unfold coreDecide
    rw [hc]
    rfl

end Plain

def approvingHost : Host Unit :=
  { quietHost with
    evaluators := fun _ =>
      ⟨fun _ => .ok (.dict [("outcome", .str "approve")]), fun _ => .ok .null, fun _ => .ok .null⟩ }

def incomeRule : Dict := [("income", .dict [("nodes", .list [])])]

def incomeSteps : List Value :=
  [.dict [("type", .str "connector"), ("ref_id", .str "bureau")],
    .dict [("type", .str "rule"), ("ref_id", .str "income"),
      ("config", .dict [("condition", .str "payload.bureau")])],
    .dict [("type", .str "outcome"), ("config", .dict [("outcome", .str "pass")])]]

def incomeEnd : Except Raised Unit × Run Unit :=
  runSteps approvingHost incomeRule 2 incomeSteps 0 0 (freshRun [])

theorem income_approved_on_both :
    isFastServable incomeSteps = true ∧ incomeEnd.1 = .ok () ∧
      coreDecide asciiText (evaluatorsOf approvingHost (freshRun []))
          (catalogOf approvingHost incomeRule) incomeSteps =
        .ok (settle incomeEnd.2.ctx.outcome) ∧
      incomeEnd.2.ctx.outcome = "approve" := by
  have hrun : incomeEnd.1 = .ok () := rfl
  have hplain : PlainRun approvingHost incomeRule 1 incomeSteps 0 (freshRun []) := by
    refine ⟨Or.inl ⟨rfl, Or.inl (by decide)⟩, fun r₁ h₁ => ?_⟩
    obtain rfl : _ = r₁ := congrArg Prod.snd h₁
    refine ⟨Or.inl ⟨rfl, _, _, ⟨"income", rfl, rfl⟩, rfl⟩, fun r₂ h₂ => ?_⟩
    obtain rfl : _ = r₂ := congrArg Prod.snd h₂
    exact ⟨Or.inl ⟨rfl, Or.inr ⟨rfl, rfl⟩⟩, fun _ _ => trivial⟩
  refine ⟨by decide, hrun, ?_, rfl⟩
  rcases fast_path_agrees approvingHost incomeRule (freshRun []) 1 incomeSteps rfl rfl rfl hplain
    with ⟨r', hx⟩ | ⟨r', hx, hc⟩
  · rw [incomeEnd, hx] at hrun
    cases hrun
  · rw [incomeEnd, hx]
    exact hc

def danglingSteps : List Value :=
  [.dict [("type", .str "rule"), ("ref_id", .str "retired")],
    .dict [("type", .str "outcome"), ("ref_id", .str "approve")]]

/-- The core passes over the rule; the executor sends the failed gate to review. -/
theorem dangling_rule_disagrees :
    isFastServable danglingSteps = true ∧
      (runSteps quietHost [] 2 danglingSteps 0 0 (freshRun [])).1 = .ok () ∧
      settle (runSteps quietHost [] 2 danglingSteps 0 0 (freshRun [])).2.ctx.outcome = "review" ∧
      coreDecide asciiText (evaluatorsOf quietHost (freshRun [])) (catalogOf quietHost [])
        danglingSteps = .ok "approve" :=
  ⟨by decide, rfl, by rfl, by rfl⟩

end RuleMind
