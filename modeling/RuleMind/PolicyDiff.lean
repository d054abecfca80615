/-
  The diff a reviewer sees before a policy is promoted: `app/policy_diff.py`, and the
  decision of `app/core/engine.py` it is about.
-/
import RuleMind.Scorecard
import RuleMind.DecisionTable
import RuleMind.Lib.JsonText

namespace RuleMind.PolicyDiff

open Lib (Json FloatText Scalar)
open Text (F64)
open RuleTree (iterate)
open DecisionTable (evaluateDecisionTable)

/-! ### JSON texts -/

/-- `json.dumps` writes every float in its own way. -/
structure JsonFloats where
  text : F64 → FloatText
  inj : ∀ {x y : F64}, x ≠ .nan → y ≠ .nan → (∀ q, x = .finite q → Text.roundF64 q = some q) →
    (∀ q, y = .finite q → Text.roundF64 q = some q) → text x = text y → x = y

mutual

def AllDoubles : Value → Prop
  | .float q => Text.roundF64 q = some q
  | .list vs => ListDoubles vs
  | .dict kvs => FieldDoubles kvs
  | _ => True

def ListDoubles : List Value → Prop
  | [] => True
  | v :: vs => AllDoubles v ∧ ListDoubles vs

def FieldDoubles : List (String × Value) → Prop
  | [] => True
  | (_, v) :: kvs => AllDoubles v ∧ FieldDoubles kvs

end

section Texts
variable (floats : JsonFloats)

mutual

def toJson : Value → Json
  | .null => .scalar .null
  | .bool b => .scalar (.bool b)
  | .int n => .scalar (.int n)
  | .float q => .scalar (.float (floats.text (.finite q)))
  | .inf neg => .scalar (.float (floats.text (.infinite neg)))
  | .str s => .str s
  | .list vs => .arr (listToJson vs)
  | .dict kvs => .obj (fieldsToJson kvs)

def listToJson : List Value → List Json
  | [] => []
  | v :: vs => toJson v :: listToJson vs

def fieldsToJson : List (String × Value) → List (String × Json)
  | [] => []
  | (k, v) :: kvs => (k, toJson v) :: fieldsToJson kvs

end

def jsonDumps (v : Value) : String := Json.dumps (toJson floats v)

/-- A value as it is stored: its floats are doubles, its keys in order. -/
def Stored (v : Value) : Prop := AllDoubles v ∧ Json.norm (toJson floats v) = toJson floats v

variable {floats}

theorem float_text_inj {q r : ℚ} (hq : Text.roundF64 q = some q) (hr : Text.roundF64 r = some r)
    (h : floats.text (.finite q) = floats.text (.finite r)) : q = r := by
  have heq : F64.finite q = .finite r := floats.inj (by simp) (by simp)
    (fun p hp => by cases hp; exact hq) (fun p hp => by cases hp; exact hr) h
  cases heq
  rfl

mutual

theorem toJson_inj : ∀ {v w : Value}, AllDoubles v → AllDoubles w →
    toJson floats v = toJson floats w → v = w
  | .null, w, _, _, h => by cases w <;> simp_all [toJson]
  | .bool b, w, _, _, h => by cases w <;> simp_all [toJson]
  | .int n, w, _, _, h => by cases w <;> simp_all [toJson]
  | .float q, w, hv, hw, h => by
    cases w with
    | float r =>
      have hw : Text.roundF64 r = some r := by simpa only [AllDoubles] using hw
      have hv : Text.roundF64 q = some q := by simpa only [AllDoubles] using hv
      simp only [toJson, Json.scalar.injEq, Scalar.float.injEq] at h
      rw [float_text_inj hv hw h]
    | inf neg =>
      have hv : Text.roundF64 q = some q := by simpa only [AllDoubles] using hv
      simp only [toJson, Json.scalar.injEq, Scalar.float.injEq] at h
      cases floats.inj (by simp) (by simp) (fun p hp => by cases hp; exact hv) (by simp) h
    | _ => simp [toJson] at h
  | .inf neg, w, _, hw, h => by
    cases w with
    | float r =>
      have hw : Text.roundF64 r = some r := by simpa only [AllDoubles] using hw
      simp only [toJson, Json.scalar.injEq, Scalar.float.injEq] at h
      cases floats.inj (by simp) (by simp) (by simp) (fun p hp => by cases hp; exact hw) h
    | inf neg' =>
      simp only [toJson, Json.scalar.injEq, Scalar.float.injEq] at h
      cases floats.inj (by simp) (by simp) (by simp) (by simp) h
      rfl
    | _ => simp [toJson] at h
  | .str s, w, _, _, h => by cases w <;> simp_all [toJson]
  | .list vs, w, hv, hw, h => by
    cases w with
    | list ws =>
      simp only [toJson, Json.arr.injEq] at h
      rw [listToJson_inj (by simpa only [AllDoubles] using hv) (by simpa only [AllDoubles] using hw)
        h]
    | _ => simp [toJson] at h
  | .dict kvs, w, hv, hw, h => by
    cases w with
    | dict kws =>
      simp only [toJson, Json.obj.injEq] at h
      rw [fieldsToJson_inj (by simpa only [AllDoubles] using hv)
        (by simpa only [AllDoubles] using hw) h]
    | _ => simp [toJson] at h

theorem listToJson_inj : ∀ {vs ws : List Value}, ListDoubles vs → ListDoubles ws →
    listToJson floats vs = listToJson floats ws → vs = ws
  | [], [], _, _, _ => rfl
  | [], _ :: _, _, _, h => by simp [listToJson] at h
  | _ :: _, [], _, _, h => by simp [listToJson] at h
  | v :: vs, w :: ws, hv, hw, h => by
    simp only [listToJson, List.cons.injEq] at h
    simp only [ListDoubles] at hv hw
    rw [toJson_inj hv.1 hw.1 h.1, listToJson_inj hv.2 hw.2 h.2]

theorem fieldsToJson_inj : ∀ {vs ws : List (String × Value)}, FieldDoubles vs → FieldDoubles ws →
    fieldsToJson floats vs = fieldsToJson floats ws → vs = ws
  | [], [], _, _, _ => rfl
  | [], _ :: _, _, _, h => by simp [fieldsToJson] at h
  | _ :: _, [], _, _, h => by simp [fieldsToJson] at h
  | (k, v) :: vs, (l, w) :: ws, hv, hw, h => by
    simp only [fieldsToJson, List.cons.injEq, Prod.mk.injEq] at h
    simp only [FieldDoubles] at hv hw
    rw [h.1.1, toJson_inj hv.1 hw.1 h.1.2, fieldsToJson_inj hv.2 hw.2 h.2]

end

end Texts

/-! ### Snapshots -/

/-- A policy of a tenant, and the rules, scorecards and tables it may refer to. -/
structure Tenant where
  policy : Value
  catalog : Catalog

structure StepRef where
  type : Value
  refId : Value
  id : Value

structure Snapshot where
  name : Value
  defaultOutcome : Value
  steps : List StepRef
  rules : Dict
  scorecards : Dict
  decisionTables : Dict

def stepRef (step : Value) : Except PyError StepRef :=
  match step.asDict with
  | none => .error .attributeError
  | some _ => .ok ⟨(step.field "type").getD .null, refId step, (step.field "id").getD .null⟩

def referenced (type : String) (steps : List StepRef) : List Value :=
  (steps.filter fun s => s.type = .str type && s.refId.truthy).map StepRef.refId

def project (keys : List String) (entity : Value) : Except PyError Value :=
  match entity.asDict with
  | none => .error .attributeError
  | some kvs => .ok (.dict (keys.map fun key => (key, (kvs.lookup key).getD .null)))

/-- The definition of a reference, if there is one. -/
def addDefinition (collection : Dict) (keys : List String) (kept : Dict) (ref : Value) :
    Except PyError Dict := do
  let found ← pyGetTruthy collection ref
  match found, ref with
  | some entity, .str id => (project keys entity).map (setKey kept id)
  | _, _ => .ok kept

def definitions (collection : Dict) (keys : List String) (refs : List Value) :
    Except PyError Dict :=
  refs.foldlM (addDefinition collection keys) []

def ruleKeys : List String := ["name", "tree", "nodes"]

def scorecardKeys : List String := ["name", "attributes", "bands"]

def tableKeys : List String := ["name", "hit_policy", "rows"]

def policySnapshot (t : Tenant) : Except PyError Snapshot :=
  match t.policy.asDict with
  | none => .error .attributeError
  | some _ => do
    let steps ← iterate (some (Value.orElse (t.policy.field "steps") (.list [])))
    let steps ← steps.mapM stepRef
    let rules ← definitions t.catalog.rules ruleKeys (referenced "rule" steps)
    let scorecards ← definitions t.catalog.scorecards scorecardKeys (referenced "scorecard" steps)
    let tables ← definitions t.catalog.decisionTables tableKeys (referenced "decision_table" steps)
    .ok ⟨(t.policy.field "name").getD .null, (t.policy.field "defaultOutcome").getD .null, steps,
      rules, scorecards, tables⟩

/-! ### Diffs -/

structure EntityDiff where
  added : List String
  removed : List String
  changed : List String

def EntityDiff.isEmpty (d : EntityDiff) : Bool :=
  d.added.isEmpty && d.removed.isEmpty && d.changed.isEmpty

def stepKey (s : StepRef) : Value × Value := (s.type, s.refId)

/-- `key in keys`, for pairs. -/
def keyIn (keys : List (Value × Value)) (key : Value × Value) : Bool :=
  keys.any fun k => pyEq key.1 k.1 && pyEq key.2 k.2

structure Diff where
  hasBaseline : Bool
  changed : Bool
  stepsAdded : List (Value × Value)
  stepsRemoved : List (Value × Value)
  rules : EntityDiff
  scorecards : EntityDiff
  decisionTables : EntityDiff

section Diffs
variable (floats : JsonFloats)

def entityDiff (current previous : Dict) : EntityDiff where
  added := (current.map Prod.fst).filter fun k => (previous.lookup k).isNone
  removed := (previous.map Prod.fst).filter fun k => (current.lookup k).isNone
  changed := (current.map Prod.fst).filter fun k =>
    match current.lookup k, previous.lookup k with
    | some v, some w => jsonDumps floats v != jsonDumps floats w
    | _, _ => false

def diffSnapshots (current : Snapshot) (previous : Option Snapshot) : Diff :=
  let before := previous.getD ⟨.null, .null, [], [], [], []⟩
  let curKeys := current.steps.map stepKey
  let prevKeys := before.steps.map stepKey
  let stepsAdded := curKeys.filter fun k => !keyIn prevKeys k
  let stepsRemoved := prevKeys.filter fun k => !keyIn curKeys k
  let rules := entityDiff floats current.rules before.rules
  let scorecards := entityDiff floats current.scorecards before.scorecards
  let tables := entityDiff floats current.decisionTables before.decisionTables
  let changed := !stepsAdded.isEmpty || !stepsRemoved.isEmpty || !rules.isEmpty ||
    !scorecards.isEmpty || !tables.isEmpty
  ⟨previous.isSome, if previous.isSome then changed else true, stepsAdded, stepsRemoved, rules,
    scorecards, tables⟩

end Diffs

/-! ### Decisions -/

section Decisions
variable (py : PyText) (search : RegexSearch) (fs : Formulas)
variable (ruleTree : Dict → Value → Except PyError Value)
variable (validate : Value → Except PyError (List String))

/-- What `decide` calls, on the variables it was given; of the results it reads the outcome and
    the score. -/
def evaluators (vars : Dict) : Evaluators where
  ruleTree := ruleTree vars
  scorecard card := (evaluateScorecard py fs vars card).map fun r => .dict [("score", .int r.score)]
  decisionTable table := (evaluateDecisionTable py search table vars).map fun r =>
    .dict [("outcome", r.outcome)]

def scoreStep (ev : Evaluators) (catalog : Catalog) (score : Value) (step : Value) :
    Except PyError Value :=
  if stepKind step = .scorecard then do
    let found ← pyGetTruthy catalog.scorecards (refId step)
    match found with
    | none => .ok score
    | some card => (ev.scorecard card).map fun r => (r.field "score").getD .null
  else .ok score

def decideStep (ev : Evaluators) (catalog : Catalog) (state : String × Value) (step : Value) :
    Except PyError (String × Value) := do
  let outcome ← coreStep py ev catalog state.1 step
  let score ← scoreStep ev catalog state.2 step
  .ok (outcome, score)

/-- `decide`: the outcome and the score.  The payload is validated against the schema of the
    policy, by `validate_input`. -/
def decide (t : Tenant) (vars : Dict) : Except PyError (String × Value) :=
  match t.policy.asDict with
  | none => .error .attributeError
  | some _ => do
    let errors ← validate ((t.policy.field "input_schema").getD .null)
    if errors.isEmpty then
      let steps ← iterate (t.policy.field "steps")
      let (outcome, score) ← steps.foldlM
        (decideStep py (evaluators py search fs ruleTree vars) t.catalog) ("pending", .null)
      .ok (settle outcome, score)
    else
      .ok ("reject", .null)

end Decisions

/-! ### Python's equality of keys -/

section Equality
variable {v w : Value}

theorem pyEq_str {s : String} (h : pyEq (.str s) w = true) : w = .str s := by
  cases w with
  | str t =>
    simp only [pyEq, beq_iff_eq] at h
    rw [h]
  | _ => simp [pyEq] at h

theorem pyEq_of_str {s : String} (h : pyEq v (.str s) = true) : v = .str s := by
  cases v with
  | str t =>
    simp only [pyEq, beq_iff_eq] at h
    rw [h]
  | _ => simp [pyEq, Value.numeric] at h

def isContainer : Value → Bool
  | .list _ | .dict _ => true
  | _ => false

theorem pyEq_container (h : pyEq v w = true) : isContainer v = isContainer w := by
  cases v <;> cases w <;> first | rfl | simp [pyEq, Value.numeric] at h

theorem pyEq_truthy (h : pyEq v w = true) : v.truthy = w.truthy := by
  have hnum : ∀ {v : Value} {q : ℚ}, v.numeric = some q → v.truthy = (q != 0) := by
    intro v q hq
    cases v with
    | bool b => cases b <;> cases hq <;> rfl
    | int n =>
      cases hq
      rw [Bool.eq_iff_iff]
      simp [Value.truthy]
    | float q =>
      cases hq
      rfl
    | _ => cases hq
  cases v with
  | null => cases w <;> first | rfl | simp [pyEq] at h
  | inf a => cases w <;> first | rfl | simp [pyEq] at h
  | str s => rw [pyEq_str h]
  | list vs =>
    cases w with
    | list ws => cases vs <;> cases ws <;> first | rfl | simp [pyEq, pyEqList] at h
    | _ => simp [pyEq] at h
  | dict vs =>
    cases w with
    | dict ws => cases vs <;> cases ws <;> first | rfl | simp [pyEq] at h
    | _ => simp [pyEq] at h
  | bool b =>
    have hw : w.numeric = some (if b then 1 else 0) := by simpa [pyEq] using h
    rw [hnum hw, hnum (v := .bool b) rfl]
  | int n =>
    have hw : w.numeric = some (n : ℚ) := by simpa [pyEq] using h
    rw [hnum hw, hnum (v := .int n) rfl]
  | float q =>
    have hw : w.numeric = some q := by simpa [pyEq] using h
    rw [hnum hw, hnum (v := .float q) rfl]

theorem pyGetTruthy_cases (h : pyEq v w = true) :
    (∃ s, v = .str s ∧ w = .str s) ∨
    (∀ c, pyGetTruthy c v = .ok none ∧ pyGetTruthy c w = .ok none) ∨
    ∀ c, pyGetTruthy c v = .error .typeError ∧ pyGetTruthy c w = .error .typeError := by
  have hcont := pyEq_container h
  by_cases hs : ∃ s, v = .str s
  · obtain ⟨s, rfl⟩ := hs
    exact Or.inl ⟨s, rfl, pyEq_str h⟩
  · have hs' : ∀ s, w ≠ .str s := by
      rintro s rfl
      exact hs ⟨s, pyEq_of_str h⟩
    have hplain : ∀ u : Value, (∀ s, u ≠ .str s) → isContainer u = false → ∀ c,
        pyGetTruthy c u = .ok none := by
      intro u hu hc c
      cases u with
      | str s => exact absurd rfl (hu s)
      | list _ | dict _ => cases hc
      | _ => rfl
    have hbracket : ∀ u : Value, isContainer u = true → ∀ c,
        pyGetTruthy c u = .error .typeError := by
      intro u hc c
      cases u with
      | list _ | dict _ => rfl
      | _ => cases hc
    grind -ring -linarith

theorem stepKind_congr {step step' : Value}
    (h : pyEq ((step.field "type").getD .null) ((step'.field "type").getD .null) = true) :
    stepKind step = stepKind step' := by
  unfold stepKind
  have hcont := pyEq_container h
  cases hv : step.field "type" with
  | none => grind [pyEq]
  | some v =>
    rw [hv] at h hcont
    cases hw : step'.field "type" with
    | none => grind [pyEq]
    | some w =>
      rw [hw] at h hcont
      cases v with
      | str s =>
        have hws : w = .str s := pyEq_str h
        rw [hws]
      | list _ | dict _ => cases w <;> first | rfl | cases hcont
      | _ =>
        cases w with
        | str s => cases pyEq_of_str h
        | list _ | dict _ => cases hcont
        | _ => rfl

end Equality

/-! ### Votes -/

section Votes
variable (py : PyText) (ev : Evaluators) (catalog : Catalog)

def vote (step : Value) : Except PyError Value :=
  match step.asDict with
  | none => .error .attributeError
  | some _ =>
    match stepKind step with
    | .rule => do
      match ← pyGetTruthy catalog.rules (refId step) with
      | none => .ok .null
      | some rule => (evaluateRuleDefinition py ev rule).map fun e => (e.field "outcome").getD .null
    | .scorecard => do
      match ← pyGetTruthy catalog.scorecards (refId step) with
      | none => .ok .null
      | some card => (ev.scorecard card).map fun _ => .null
    | .outcome => coreCandidate step
    | .decisionTable => do
      match ← pyGetTruthy catalog.decisionTables (refId step) with
      | none => .ok .null
      | some table => (ev.decisionTable table).map fun r => (r.field "outcome").getD .null
    | .connector | .action | .reviewGate | .transform | .model => .ok .null
    | .unhashable => .error .typeError
    | .loop | .branch | .workflow | .monitor | .other => .ok (.str "review")

def stepScore (step : Value) : Except PyError (Option Value) :=
  if stepKind step = .scorecard then do
    match ← pyGetTruthy catalog.scorecards (refId step) with
    | none => .ok none
    | some card => (ev.scorecard card).map fun r => some ((r.field "score").getD .null)
  else .ok none

def voteRank (v : Value) : ℕ := if v.truthy then rank (py.str v) else 0

/-- What counts of a step: the rank of its vote, and the score it sets; nothing if it raises. -/
def reading (step : Value) : Option (ℕ × Option Value) :=
  match vote py ev catalog step, stepScore ev catalog step with
  | .ok v, .ok s => some (voteRank py v, s)
  | _, _ => none

variable {py ev catalog}

variable {o : String}

theorem merge_falsy (ho : Named o) {v : Value} (hv : v.truthy = false) :
    pyMergeOutcome py o v = o := by
  rw [pyMergeOutcome_eq py ho, hv, if_neg Bool.false_ne_true, mergeOutcome_eq]
  exact if_neg (lt_irrefl _)

variable (py) in
theorem rank_vote (ho : Named o) (v : Value) :
    rank (pyMergeOutcome py o v) = max (rank o) (voteRank py v) := by
  unfold voteRank
  cases hv : v.truthy with
  | true => rw [pyMergeOutcome_eq py ho, hv, if_pos rfl, if_pos rfl, rank_merge]
  | false => rw [merge_falsy ho hv, if_neg Bool.false_ne_true, Nat.max_zero]

variable (py) in
theorem named_vote (ho : Named o) (v : Value) : Named (pyMergeOutcome py o v) := by
  rw [pyMergeOutcome_eq py ho]
  exact named_merge ho _

theorem coreStep_vote (ho : Named o) (step : Value) :
    coreStep py ev catalog o step = (vote py ev catalog step).map (pyMergeOutcome py o) := by
  have hnull : pyMergeOutcome py o .null = o := merge_falsy ho rfl
  unfold coreStep vote
  cases step.asDict with
  | none => rfl
  | some kvs =>
    dsimp only
    cases stepKind step with
    | rule =>
      dsimp only
      cases pyGetTruthy catalog.rules (refId step) with
      | error e => rfl
      | ok found =>
        cases found with
        | none => exact congrArg Except.ok hnull.symm
        | some rule =>
          simp only [bind, Except.bind]
          cases evaluateRuleDefinition py ev rule with
          | error e => rfl
          | ok r => rfl
    | scorecard =>
      dsimp only
      cases pyGetTruthy catalog.scorecards (refId step) with
      | error e => rfl
      | ok found =>
        cases found with
        | none => exact congrArg Except.ok hnull.symm
        | some card =>
          simp only [bind, Except.bind]
          cases ev.scorecard card with
          | error e => rfl
          | ok r => exact congrArg Except.ok hnull.symm
    | outcome =>
      dsimp only
      cases coreCandidate step with
      | error e => rfl
      | ok c => rfl
    | decisionTable =>
      dsimp only
      cases pyGetTruthy catalog.decisionTables (refId step) with
      | error e => rfl
      | ok found =>
        cases found with
        | none => exact congrArg Except.ok hnull.symm
        | some table =>
          simp only [bind, Except.bind]
          cases ev.decisionTable table with
          | error e => rfl
          | ok r =>
            simp only [Except.map]
            cases hf : r.field "outcome" with
            | none => exact congrArg Except.ok hnull.symm
            | some v => grind -ring -linarith [merge_falsy]
    | connector | action | reviewGate | transform | model => exact congrArg Except.ok hnull.symm
    | unhashable => rfl
    | loop | branch | workflow | monitor | other => rfl

theorem scoreStep_eq (score step : Value) :
    scoreStep ev catalog score step = (stepScore ev catalog step).map (·.getD score) := by
  unfold scoreStep stepScore
  split
  · cases pyGetTruthy catalog.scorecards (refId step) with
    | error e => rfl
    | ok found =>
      cases found with
      | none => rfl
      | some card =>
        show (ev.scorecard card).map _ = ((ev.scorecard card).map _).map _
        cases ev.scorecard card with
        | error e => rfl
        | ok r => rfl
  · rfl

def lastScore (py : PyText) (ev : Evaluators) (catalog : Catalog) (score : Value)
    (steps : List Value) : Value :=
  steps.foldl (fun s step => ((reading py ev catalog step).bind Prod.snd).getD s) score

/-- The outcome that is reached, from that before: the strongest vote. -/
structure Reaches (py : PyText) (ev : Evaluators) (catalog : Catalog) (steps : List Value)
    (o o' : String) : Prop where
  named : Named o'
  above : rank o ≤ rank o'
  votes : ∀ step ∈ steps, ∃ x, reading py ev catalog step = some x ∧ x.1 ≤ rank o'
  reached : rank o' = rank o ∨ ∃ step ∈ steps, ∃ x, reading py ev catalog step = some x ∧
    x.1 = rank o'

variable (py ev catalog) in
theorem decideStep_eq (ho : Named o) (score step : Value) :
    (∃ e, reading py ev catalog step = none ∧ decideStep py ev catalog (o, score) step = .error e) ∨
    ∃ v s, reading py ev catalog step = some (voteRank py v, s) ∧
      decideStep py ev catalog (o, score) step = .ok (pyMergeOutcome py o v, s.getD score) := by
  unfold decideStep reading
  rw [coreStep_vote ho, scoreStep_eq]
  cases vote py ev catalog step with
  | error e => exact Or.inl ⟨e, rfl, rfl⟩
  | ok v =>
    cases stepScore ev catalog step with
    | error e => exact Or.inl ⟨e, rfl, rfl⟩
    | ok s => exact Or.inr ⟨v, s, rfl, rfl⟩

variable (py ev catalog) in
theorem decide_spec (ho : Named o) (score : Value) (steps : List Value) :
    ((∃ step ∈ steps, reading py ev catalog step = none) ∧
      ∃ e, steps.foldlM (decideStep py ev catalog) (o, score) = .error e) ∨
    ∃ o', steps.foldlM (decideStep py ev catalog) (o, score) =
      .ok (o', lastScore py ev catalog score steps) ∧ Reaches py ev catalog steps o o' := by
  induction steps generalizing o score with
  | nil => exact Or.inr ⟨o, rfl, ho, le_rfl, (fun _ h => nomatch h), Or.inl rfl⟩
  | cons step steps ih =>
    rw [List.foldlM_cons]
    rcases decideStep_eq py ev catalog ho score step with
      ⟨e, hr, heq⟩ | ⟨v, s, hr, heq⟩
    · rw [heq]
      exact Or.inl ⟨⟨step, List.mem_cons_self, hr⟩, e, rfl⟩
    · rw [heq]
      have hrank := rank_vote py ho v
      rcases ih (named_vote py ho v) (s.getD score) with
        ⟨⟨st, hst, hn⟩, e, he⟩ | ⟨o', he, hreach⟩
      · exact Or.inl ⟨⟨st, List.mem_cons_of_mem _ hst, hn⟩, e, he⟩
      · refine Or.inr ⟨o', ?_, hreach.named, ?_, ?_, ?_⟩
        · show steps.foldlM _ (pyMergeOutcome py o v, s.getD score) = _
          rw [he]
          show _ = Except.ok (o', lastScore py ev catalog
            (((reading py ev catalog step).bind Prod.snd).getD score) steps)
          rw [hr]
          rfl
        · exact le_trans (by rw [hrank]; exact le_max_left _ _) hreach.above
        · intro st hst
          rcases List.mem_cons.1 hst with rfl | hst
          · refine ⟨_, hr, le_trans ?_ hreach.above⟩
            rw [hrank]
            exact le_max_right _ _
          · exact hreach.votes st hst
        · rcases hreach.reached with h | ⟨st, hst, x, hx, heqx⟩
          · rw [hrank] at h
            rcases le_total (rank o) (voteRank py v) with hle | hle
            · rw [max_eq_right hle] at h
              exact Or.inr ⟨step, List.mem_cons_self, _, hr, h.symm⟩
            · rw [max_eq_left hle] at h
              exact Or.inl h
          grind

end Votes

/-! ### What an unchanged diff says of an entity -/

section Entities
variable {floats : JsonFloats} {keys : List String} {collection : Dict}

def projected (keys : List String) (entity : Value) : Value :=
  .dict (keys.map fun key => (key, (entity.field key).getD .null))

theorem project_ok {entity p : Value} (h : project keys entity = .ok p) :
    p = projected keys entity ∧ entity.asDict.isSome = true := by
  unfold project at h
  cases entity with
  | dict kvs =>
    cases h
    exact ⟨rfl, rfl⟩
  | _ => cases h

theorem addDefinition_ok {kept d : Dict} {ref : Value}
    (h : addDefinition collection keys kept ref = .ok d) (id : String) :
    d.lookup id = (if ref = .str id then
      ((collection.lookup id).filter Value.truthy).map (projected keys) else none).or
        (kept.lookup id) ∧
    (ref = .str id → ∀ e, (collection.lookup id).filter Value.truthy = some e →
      e.asDict.isSome = true) := by
  obtain ⟨found, hfound, h⟩ := bind_eq_ok.1 h
  by_cases href : ∃ s, ref = .str s
  · obtain ⟨s, rfl⟩ := href
    have hs : found = (collection.lookup s).filter Value.truthy := (Except.ok.inj hfound).symm
    cases hf : (collection.lookup s).filter Value.truthy with
    | none =>
      rw [hs, hf] at h
      cases h
      refine ⟨?_, ?_⟩
      · split_ifs with heq
        · cases heq
          rw [hf]
          rfl
        · rfl
      · rintro heq e he
        cases heq
        rw [hf] at he
        cases he
    | some e =>
      rw [hs, hf] at h
      obtain ⟨p, hp, rfl⟩ := map_eq_ok.1 h
      obtain ⟨rfl, hdict⟩ := project_ok hp
      refine ⟨?_, ?_⟩
      · rw [lookup_setKey]
        split_ifs with h1 h2 h2
        · subst h1
          rw [hf]
          rfl
        · exact absurd (by rw [h1]) h2
        · exact absurd (Value.str.inj h2).symm h1
        · rfl
      · rintro heq e' he
        cases heq
        rw [hf] at he
        cases he
        exact hdict
  simp_all

theorem definitions_lookup {refs : List Value} {d : Dict}
    (h : definitions collection keys refs = .ok d) {id : String} (hid : .str id ∈ refs) :
    d.lookup id = ((collection.lookup id).filter Value.truthy).map (projected keys) ∧
      ∀ e, (collection.lookup id).filter Value.truthy = some e → e.asDict.isSome = true := by
  unfold definitions at h
  have hfold : ∀ {refs : List Value} {kept : Dict},
      refs.foldlM (addDefinition collection keys) kept = .ok d →
      (kept.lookup id = none ∨
        kept.lookup id = ((collection.lookup id).filter Value.truthy).map (projected keys)) →
      (.str id ∈ refs ∨
        kept.lookup id = ((collection.lookup id).filter Value.truthy).map (projected keys)) →
      d.lookup id = ((collection.lookup id).filter Value.truthy).map (projected keys) := by
    intro refs
    induction refs with
    | nil =>
      rintro kept hfold - (hmem | hkept)
      · cases hmem
      · cases hfold
        exact hkept
    | cons ref refs ih =>
      intro kept hfold hkept hmem
      rw [List.foldlM_cons] at hfold
      obtain ⟨kept', hadd, hfold⟩ := bind_eq_ok.1 hfold
      obtain ⟨hlookup, -⟩ := addDefinition_ok hadd id
      by_cases href : ref = .str id
      · have hkept' : kept'.lookup id =
            ((collection.lookup id).filter Value.truthy).map (projected keys) := by
          rw [hlookup, if_pos href]
          rcases hkept with hk | hk
          · rw [hk, Option.or_none]
          · rw [hk, Option.or_self]
        exact ih hfold (Or.inr hkept') (Or.inr hkept')
      grind
  refine ⟨hfold h (Or.inl rfl) (Or.inl hid), ?_⟩
  clear hfold
  generalize hkept : ([] : Dict) = kept at h
  clear hkept
  induction refs generalizing kept with
  | nil => cases hid
  | cons ref refs ih =>
    rw [List.foldlM_cons] at h
    obtain ⟨kept', hadd, h⟩ := bind_eq_ok.1 h
    rcases List.mem_cons.1 hid with heq | hid
    · exact (addDefinition_ok hadd id).2 heq.symm
    · exact ih hid kept' h

theorem entityDiff_empty {current previous : Dict}
    (h : (entityDiff floats current previous).isEmpty = true) (id : String) :
    (current.lookup id).map (jsonDumps floats) = (previous.lookup id).map (jsonDumps floats) := by
  simp only [EntityDiff.isEmpty, Bool.and_eq_true, List.isEmpty_iff] at h
  obtain ⟨⟨hadded, hremoved⟩, hchanged⟩ := h
  have hmem : ∀ {d : Dict} {v : Value}, d.lookup id = some v → id ∈ d.map Prod.fst := by
    intro d v hv
    obtain ⟨l, r, rfl, -⟩ := List.lookup_eq_some_iff.1 hv
    simp
  cases hc : current.lookup id with
  | none =>
    cases hp : previous.lookup id with
    | none => rfl
    | some w =>
      have := List.filter_eq_nil_iff.1 hremoved id (hmem hp)
      rw [hc] at this
      exact absurd rfl this
  | some v =>
    cases hp : previous.lookup id with
    | none =>
      have := List.filter_eq_nil_iff.1 hadded id (hmem hc)
      rw [hp] at this
      exact absurd rfl this
    | some w =>
      have := List.filter_eq_nil_iff.1 hchanged id (hmem hc)
      simp only [hc, hp, bne_iff_ne, ne_eq, not_not] at this
      rw [Option.map_some, Option.map_some, this]

theorem normFields_projected (keys : List String) (entity : Value) :
    Json.normFields (fieldsToJson floats
      (keys.map fun key => (key, (entity.field key).getD .null))) =
      keys.map fun key => (key, (toJson floats ((entity.field key).getD .null)).norm) := by
  induction keys with
  | nil => rfl
  | cons key keys ih => simp only [List.map_cons, fieldsToJson, Json.normFields, ih]

theorem projected_dumps {e e' : Value} (hkeys : keys.Nodup)
    (h : jsonDumps floats (projected keys e) = jsonDumps floats (projected keys e')) :
    ∀ key ∈ keys, (toJson floats ((e.field key).getD .null)).norm =
      (toJson floats ((e'.field key).getD .null)).norm := by
  have hnorm := Json.dumps_inj.1 h
  simp only [projected, toJson, Json.norm, Json.obj.injEq, normFields_projected] at hnorm
  have hfst : ∀ e : Value, (keys.map fun key =>
      (key, (toJson floats ((e.field key).getD .null)).norm)).map Prod.fst = keys := by
    intro e
    rw [List.map_map]
    exact List.map_id keys
  have hlist := Json.sortKeys_inj (by rw [hfst, hfst]) (by rw [hfst]; exact hkeys) hnorm
  simp_all

theorem stored_eq {v w : Value} (hv : Stored floats v) (hw : Stored floats w)
    (h : (toJson floats v).norm = (toJson floats w).norm) : v = w := by
  rw [hv.2, hw.2] at h
  exact toJson_inj hv.1 hw.1 h

theorem unchanged_entity {collection' : Dict} {refs refs' : List Value} {d d' : Dict}
    (h : definitions collection keys refs = .ok d)
    (h' : definitions collection' keys refs' = .ok d') (hkeys : keys.Nodup)
    (hdiff : (entityDiff floats d d').isEmpty = true) {id : String} (hid : .str id ∈ refs)
    (hid' : .str id ∈ refs') :
    ((collection.lookup id).filter Value.truthy = none ∧
      (collection'.lookup id).filter Value.truthy = none) ∨
    ∃ e e', (collection.lookup id).filter Value.truthy = some e ∧
      (collection'.lookup id).filter Value.truthy = some e' ∧
      e.asDict.isSome = true ∧ e'.asDict.isSome = true ∧
      ∀ key ∈ keys, (toJson floats ((e.field key).getD .null)).norm =
        (toJson floats ((e'.field key).getD .null)).norm := by
  obtain ⟨hl, hd⟩ := definitions_lookup h hid
  obtain ⟨hl', hd'⟩ := definitions_lookup h' hid'
  have htexts := entityDiff_empty hdiff id
  rw [hl, hl'] at htexts
  cases he : (collection.lookup id).filter Value.truthy with
  | none =>
    cases he' : (collection'.lookup id).filter Value.truthy with
    | none => exact Or.inl ⟨rfl, rfl⟩
    | some e' =>
      rw [he, he'] at htexts
      cases htexts
  | some e =>
    cases he' : (collection'.lookup id).filter Value.truthy with
    | none =>
      rw [he, he'] at htexts
      cases htexts
    | some e' =>
      rw [he, he'] at htexts
      exact Or.inr ⟨e, e', rfl, rfl, hd e he, hd' e' he',
        projected_dumps hkeys (Option.some.inj htexts)⟩

end Entities

/-! ### What the evaluators read -/

section Congruence
variable {py : PyText} {search : RegexSearch} {fs : Formulas}
variable {ruleTree : Dict → Value → Except PyError Value}

theorem definitionTree_congr {r r' : Value} (hd : r.asDict.isSome = true)
    (hd' : r'.asDict.isSome = true)
    (htree : (r.field "tree").getD .null = (r'.field "tree").getD .null)
    (hnodes : (r.field "nodes").getD .null = (r'.field "nodes").getD .null) :
    definitionTree py r = definitionTree py r' := by
  have hfilter : ∀ o : Option Value, o.filter usableTree = (some (o.getD .null)).filter usableTree := by
    intro o
    cases o with
    | none => rfl
    | some v => rfl
  have hempty : ∀ o : Option Value,
      nodesToTree py (o.getD (.list [])) = nodesToTree py (o.getD .null) := by
    intro o
    cases o with
    | none => rfl
    | some v => rfl
  grind [definitionTree]

theorem hitPolicy_congr {t t' : Value}
    (h : (t.field "hit_policy").getD .null = (t'.field "hit_policy").getD .null) :
    DecisionTable.hitPolicy py t = DecisionTable.hitPolicy py t' := by
  have hread : ∀ t : Value, DecisionTable.hitPolicy py t =
      (DecisionTable.HitPolicy.ofText (lower (py.str ((t.field "hit_policy").getD .null)))).getD
        .first := by
    intro t
    unfold DecisionTable.hitPolicy DecisionTable.hitPolicyText
    cases t.field "hit_policy" with
    | none =>
      show (DecisionTable.HitPolicy.ofText (lower "first")).getD .first =
        (DecisionTable.HitPolicy.ofText (lower "None")).getD .first
      decide
    | some v => rfl
  rw [hread, hread, h]

/-- What the evaluation of a table reads beside the rows and the hit policy. -/
def tableFields : List String := ["inputs", "outputs", "default_row"]

theorem evaluateDecisionTable_congr {t t' : Value} (vars : Dict) (hd : t.asDict.isSome = true)
    (hd' : t'.asDict.isSome = true)
    (hpolicy : (t.field "hit_policy").getD .null = (t'.field "hit_policy").getD .null)
    (hrows : (t.field "rows").getD .null = (t'.field "rows").getD .null)
    (h : ∀ key ∈ tableFields, t.field key = t'.field key) :
    evaluateDecisionTable py search t vars = evaluateDecisionTable py search t' vars := by
  have hrows' : DecisionTable.tableRows t = DecisionTable.tableRows t' := by
    have hread : ∀ t : Value, DecisionTable.tableRows t =
        iterate (some (Value.orElse (some ((t.field "rows").getD .null)) (.list []))) := by
      intro t
      unfold DecisionTable.tableRows
      cases t.field "rows" with
      | none => rfl
      | some v => rfl
    rw [hread, hread, hrows]
  have hinputs : DecisionTable.inputIndex py t = DecisionTable.inputIndex py t' := by
    unfold DecisionTable.inputIndex
    rw [h "inputs" (by decide)]
  have hresolve : ∀ policy matched, DecisionTable.resolve py t policy matched =
      DecisionTable.resolve py t' policy matched := by
    intro policy matched
    unfold DecisionTable.resolve
    rw [h "outputs" (by decide), h "default_row" (by decide)]
  obtain ⟨kvs, hk⟩ := Option.isSome_iff_exists.1 hd
  obtain ⟨kvs', hk'⟩ := Option.isSome_iff_exists.1 hd'
  unfold evaluateDecisionTable
  rw [hk, hk', hinputs, hrows', hitPolicy_congr hpolicy, h "outputs" (by decide)]
  simp only [hresolve]

/-- Entities of one id that a function reads alike. -/
def Alike {β : Type} (f : Value → β) (a b : Dict) (id : String) : Prop :=
  ((a.lookup id).filter Value.truthy).map f = ((b.lookup id).filter Value.truthy).map f

/-- What the steps of two policies have to do with each other. -/
structure Covered (py : PyText) (search : RegexSearch) (fs : Formulas) (vars : Dict)
    (a b : Catalog) (steps steps' : List Value) : Prop where
  objects : ∀ step ∈ steps, step.asDict.isSome = true
  objects' : ∀ step ∈ steps', step.asDict.isSome = true
  keys : ∀ step ∈ steps, ∃ step' ∈ steps',
    pyEq ((step.field "type").getD .null) ((step'.field "type").getD .null) = true ∧
    pyEq (refId step) (refId step') = true
  doubles : ∀ step ∈ steps, (refId step).IsDouble
  doubles' : ∀ step ∈ steps', (refId step).IsDouble
  outcomes : ∀ step ∈ steps, stepKind step = .outcome → (refId step).truthy = false →
    ∃ step' ∈ steps', stepKind step' = .outcome ∧ coreCandidate step = coreCandidate step'
  rules : ∀ step ∈ steps, stepKind step = .rule → ∀ id, refId step = .str id →
    Alike (definitionTree py) a.rules b.rules id
  scorecards : ∀ step ∈ steps, stepKind step = .scorecard → ∀ id, refId step = .str id →
    Alike (evaluateScorecard py fs vars) a.scorecards b.scorecards id
  tables : ∀ step ∈ steps, stepKind step = .decisionTable → ∀ id, refId step = .str id →
    Alike (fun t => evaluateDecisionTable py search t vars) a.decisionTables b.decisionTables id

theorem pyGetTruthy_str (collection : Dict) (id : String) :
    pyGetTruthy collection (.str id) = .ok ((collection.lookup id).filter Value.truthy) := rfl

theorem found_congr {β : Type} {f : Value → β} {a b : Dict} {ref ref' : Value}
    (href : pyEq ref ref' = true) (halike : ∀ id, ref = .str id → Alike f a b id) :
    (pyGetTruthy a ref).map (·.map f) = (pyGetTruthy b ref').map (·.map f) := by
  rcases pyGetTruthy_cases href with ⟨id, rfl, rfl⟩ | hnone | herror
  · rw [pyGetTruthy_str, pyGetTruthy_str]
    exact congrArg Except.ok (halike id rfl)
  · rw [(hnone a).1, (hnone b).2]
  · rw [(herror a).1, (herror b).2]

theorem rank_pos_float {s : String} (h : 0 < rank s) : py.float s = none := by
  unfold rank at h
  split_ifs at h with h1 h2 h3 h4
  · rw [h1]
    exact float_word py (List.all_iff_forall_prop.1 (by decide)) (by decide)
  · rw [h2]
    exact float_word py (List.all_iff_forall_prop.1 (by decide)) (by decide)
  · rw [h3]
    exact float_word py (List.all_iff_forall_prop.1 (by decide)) (by decide)
  · rw [h4]
    exact float_word py (List.all_iff_forall_prop.1 (by decide)) (by decide)
  · exact absurd h (lt_irrefl 0)

theorem rank_not_text (hpy : py.Reads) {v : Value} (hv : ∀ s, v ≠ .str s) (hd : v.IsDouble) :
    rank (py.str v) = 0 := by
  by_contra hpos
  have hfloat : py.float (py.str v) = none := rank_pos_float (Nat.pos_of_ne_zero hpos)
  have hhead : ∀ c ∈ (py.str v).toList.head?, c = 'r' ∨ c = 'a' ∨ c = 'p' := by
    unfold rank at hpos
    split_ifs at hpos with h1 h2 h3 h4
    · rw [h1]
      rintro c ⟨⟩
      exact Or.inl rfl
    · rw [h2]
      rintro c ⟨⟩
      exact Or.inl rfl
    · simp_all
    · simp_all
    · exact absurd rfl hpos
  cases v with
  | str s => exact absurd rfl (hv s)
  | int n => cases (float_repr py n).symm.trans hfloat
  | float q => cases (hpy.reads q (hd q rfl)).symm.trans hfloat
  | null => exact hpos (by decide : rank "None" = 0)
  | bool b =>
    cases b with
    | true => exact hpos (by decide : rank "True" = 0)
    | false => exact hpos (by decide : rank "False" = 0)
  | inf b =>
    cases b with
    | true => exact hpos (by decide : rank "-inf" = 0)
    | false => exact hpos (by decide : rank "inf" = 0)
  | list vs => simp_all [PyText.str, PyText.repr]
  | dict kvs => simp_all [PyText.str, PyText.repr]

theorem voteRank_congr (hpy : py.Reads) {v w : Value} (h : pyEq v w = true) (hv : v.IsDouble)
    (hw : w.IsDouble) : voteRank py v = voteRank py w := by
  unfold voteRank
  rw [pyEq_truthy h]
  by_cases hs : ∃ s, v = .str s
  · obtain ⟨s, rfl⟩ := hs
    rw [pyEq_str h]
  · have hs' : ∀ s, w ≠ .str s := by
      rintro s rfl
      exact hs ⟨s, pyEq_of_str h⟩
    simp_all [rank_not_text]

end Congruence

/-! ### Steps that are read alike -/

section Readings
variable {py : PyText} {search : RegexSearch} {fs : Formulas}
variable {ruleTree : Dict → Value → Except PyError Value} {vars : Dict}

def consult {β : Type} (found : Except PyError (Option β)) (use : β → Except PyError Value) :
    Except PyError Value :=
  found.bind fun o => o.elim (.ok .null) use

section Kinds
variable {ev : Evaluators} {catalog : Catalog} {step : Value} (hd : step.asDict.isSome = true)
include hd

theorem vote_rule (hk : stepKind step = .rule) : vote py ev catalog step =
    consult ((pyGetTruthy catalog.rules (refId step)).map (·.map (definitionTree py))) fun tree =>
      (tree.bind ev.ruleTree).map fun e => (e.field "outcome").getD .null := by
  obtain ⟨kvs, hkvs⟩ := Option.isSome_iff_exists.1 hd
  unfold vote consult
  rw [hkvs, hk]
  cases pyGetTruthy catalog.rules (refId step) with
  | error e => rfl
  | ok found =>
    cases found with
    | none => rfl
    | some rule => rfl

theorem vote_table (hk : stepKind step = .decisionTable) : vote py ev catalog step =
    consult ((pyGetTruthy catalog.decisionTables (refId step)).map (·.map ev.decisionTable))
      fun r => r.map fun r => (r.field "outcome").getD .null := by
  obtain ⟨kvs, hkvs⟩ := Option.isSome_iff_exists.1 hd
  unfold vote consult
  rw [hkvs, hk]
  cases pyGetTruthy catalog.decisionTables (refId step) with
  | error e => rfl
  | ok found =>
    cases found with
    | none => rfl
    | some table => rfl

theorem vote_scorecard (hk : stepKind step = .scorecard) : vote py ev catalog step =
    consult ((pyGetTruthy catalog.scorecards (refId step)).map (·.map ev.scorecard))
      fun r => r.map fun _ => .null := by
  obtain ⟨kvs, hkvs⟩ := Option.isSome_iff_exists.1 hd
  unfold vote consult
  rw [hkvs, hk]
  cases pyGetTruthy catalog.scorecards (refId step) with
  | error e => rfl
  | ok found =>
    cases found with
    | none => rfl
    | some card => rfl

theorem vote_outcome (hk : stepKind step = .outcome) :
    vote py ev catalog step = coreCandidate step := by grind [vote]

end Kinds

variable {step : Value} {a b : Dict} {id : String}

variable {ev : Evaluators} {catalog : Catalog}

theorem stepScore_none
    (hk : stepKind step ≠ .scorecard) : stepScore ev catalog step = .ok none := if_neg hk

theorem stepScore_scorecard (hk : stepKind step = .scorecard) : stepScore ev catalog step =
      ((pyGetTruthy catalog.scorecards (refId step)).map (·.map ev.scorecard)).bind fun o =>
        o.elim (.ok none) fun r => r.map fun r => some ((r.field "score").getD .null) := by
  unfold stepScore
  rw [if_pos hk]
  cases pyGetTruthy catalog.scorecards (refId step) with
  | error e => rfl
  | ok found =>
    cases found with
    | none => rfl
    | some card => rfl

theorem Alike.comp {β γ : Type} {f : Value → β} (h : Alike f a b id)
    (g : β → γ) : Alike (fun v => g (f v)) a b id := by
  have := congrArg (Option.map g) h
  rw [Option.map_map, Option.map_map] at this
  exact this

variable (search ruleTree) in
theorem Alike.scorecard (h : Alike (evaluateScorecard py fs vars) a b id) :
    Alike (evaluators py search fs ruleTree vars).scorecard a b id :=
  h.comp (Except.map fun r => Value.dict [("score", .int r.score)])

theorem Alike.table (h : Alike (fun t => evaluateDecisionTable py search t vars) a b id) :
    Alike (evaluators py search fs ruleTree vars).decisionTable a b id :=
  h.comp (Except.map fun r => Value.dict [("outcome", r.outcome)])

theorem covered_reading (hpy : py.Reads) {a b : Catalog} {steps steps' : List Value}
    (h : Covered py search fs vars a b steps steps') (hstep : step ∈ steps) :
    ∃ step' ∈ steps', reading py (evaluators py search fs ruleTree vars) a step =
      reading py (evaluators py search fs ruleTree vars) b step' := by
  obtain ⟨step', hstep', htype, href⟩ := h.keys step hstep
  have hkind := stepKind_congr htype
  have hd := h.objects step hstep
  have hd' := h.objects' step' hstep'
  have hunread : ∀ {st : Value} {c : Catalog}, stepKind st ≠ .scorecard →
      reading py (evaluators py search fs ruleTree vars) c st =
        (vote py (evaluators py search fs ruleTree vars) c st).toOption.map
          fun v => (voteRank py v, none) := by
    intro st c hk
    unfold reading
    rw [stepScore_none hk]
    cases vote py (evaluators py search fs ruleTree vars) c st with
    | error e => rfl
    | ok v => rfl
  cases hk : stepKind step with
  | rule =>
    refine ⟨step', hstep', ?_⟩
    rw [hunread (by rw [hk]; decide), hunread (by rw [← hkind, hk]; decide), vote_rule hd hk,
      vote_rule hd' (hkind ▸ hk), found_congr href fun id hid => h.rules step hstep hk id hid]
  | scorecard =>
    refine ⟨step', hstep', ?_⟩
    have hfound : (pyGetTruthy a.scorecards (refId step)).map
          (·.map (evaluators py search fs ruleTree vars).scorecard) =
        (pyGetTruthy b.scorecards (refId step')).map
          (·.map (evaluators py search fs ruleTree vars).scorecard) :=
      found_congr href fun id hid => (h.scorecards step hstep hk id hid).scorecard _ _
    grind -ring -linarith [reading, vote_scorecard, stepScore_scorecard]
  | outcome =>
    cases ht : (refId step).truthy with
    | false =>
      obtain ⟨st, hst, hkst, hcand⟩ := h.outcomes step hstep hk ht
      refine ⟨st, hst, ?_⟩
      rw [hunread (by rw [hk]; decide), hunread (by rw [hkst]; decide), vote_outcome hd hk,
        vote_outcome (h.objects' st hst) hkst, hcand]
    | true =>
      refine ⟨step', hstep', ?_⟩
      have hcand : ∀ {st : Value}, (refId st).truthy = true →
          coreCandidate st = .ok (refId st) := fun ht => if_pos ht
      rw [hunread (by rw [hk]; decide), hunread (by rw [← hkind, hk]; decide), vote_outcome hd hk,
        vote_outcome hd' (hkind ▸ hk), hcand ht, hcand (by rw [← pyEq_truthy href]; exact ht)]
      show some (voteRank py (refId step), _) = some (voteRank py (refId step'), _)
      rw [voteRank_congr hpy href (h.doubles step hstep) (h.doubles' step' hstep')]
  | decisionTable =>
    refine ⟨step', hstep', ?_⟩
    have hfound : (pyGetTruthy a.decisionTables (refId step)).map
          (·.map (evaluators py search fs ruleTree vars).decisionTable) =
        (pyGetTruthy b.decisionTables (refId step')).map
          (·.map (evaluators py search fs ruleTree vars).decisionTable) :=
      found_congr href fun id hid => (h.tables step hstep hk id hid).table
    grind -ring -linarith [vote_table]
  | connector | action | reviewGate | transform | model | unhashable | loop | branch | workflow
  | monitor | other => grind -ring -linarith [vote]

end Readings

/-! ### Unchanged policies -/

def Tenant.steps (t : Tenant) : List Value := ((t.policy.field "steps").bind Value.asList).getD []

def namedScorecard (catalog : Catalog) (step : Value) : Option String :=
  match stepKind step, refId step with
  | .scorecard, .str id => if (catalog.scorecards.lookup id).any Value.truthy then some id else none
  | _, _ => none

def Tenant.lastScorecard (t : Tenant) : Option String :=
  (t.steps.filterMap (namedScorecard t.catalog)).getLast?

def Refers (t : Tenant) (kind : StepKind) (id : String) : Prop :=
  ∃ step ∈ t.steps, stepKind step = kind ∧ refId step = .str id

def Unnamed (step : Value) : Prop := stepKind step = .outcome ∧ (refId step).truthy = false

structure WellKept (floats : JsonFloats) (t : Tenant) : Prop where
  listed : (t.policy.field "steps").getD (.list []) = .list t.steps
  named : t.catalog.rules.lookup "" = none ∧ t.catalog.scorecards.lookup "" = none ∧
    t.catalog.decisionTables.lookup "" = none
  doubles : ∀ step ∈ t.steps, (refId step).IsDouble
  rules : ∀ id rule, Refers t .rule id → t.catalog.rules.lookup id = some rule →
    ∀ key ∈ ["tree", "nodes"], Stored floats ((rule.field key).getD .null)
  tables : ∀ id table, Refers t .decisionTable id → t.catalog.decisionTables.lookup id = some table →
    ∀ key ∈ ["hit_policy", "rows"], Stored floats ((table.field key).getD .null)

structure Comparable (now before : Tenant) : Prop where
  schema : now.policy.field "input_schema" = before.policy.field "input_schema"
  outcomes : ∀ step ∈ now.steps, Unnamed step → ∃ step' ∈ before.steps, Unnamed step' ∧
    coreCandidate step = coreCandidate step'
  outcomes' : ∀ step ∈ before.steps, Unnamed step → ∃ step' ∈ now.steps, Unnamed step' ∧
    coreCandidate step = coreCandidate step'
  lastScorecard : now.lastScorecard = before.lastScorecard
  scorecards : ∀ id card card', Refers now .scorecard id →
    now.catalog.scorecards.lookup id = some card →
    before.catalog.scorecards.lookup id = some card' →
    ∀ key ∈ scorecardFields, card.field key = card'.field key
  tables : ∀ id table table', Refers now .decisionTable id →
    now.catalog.decisionTables.lookup id = some table →
    before.catalog.decisionTables.lookup id = some table' →
    ∀ key ∈ tableFields, table.field key = table'.field key

section Unchanged
variable {py : PyText} {search : RegexSearch} {fs : Formulas} {floats : JsonFloats}
variable {ruleTree : Dict → Value → Except PyError Value}
variable {validate : Value → Except PyError (List String)}
variable {t now before : Tenant} {s current previous : Snapshot}

variable {kind : StepKind} {name id : String}

theorem stepKind_name {step : Value} (h : stepKind step = kind)
    (hname : ∀ s, (s, kind) ∈ stepTypes → s = name) (hother : kind ≠ .other ∧ kind ≠ .unhashable) :
    step.field "type" = some (.str name) := by
  unfold stepKind at h
  split at h
  · rename_i s hs
    cases hl : stepTypes.lookup s with
    | none =>
      rw [hl] at h
      exact absurd h.symm hother.1
    | some k => grind [List.lookup_eq_some_iff]
  · exact absurd h.symm hother.2
  · exact absurd h.symm hother.2
  · exact absurd h.symm hother.1

theorem policySnapshot_ok (h : policySnapshot t = .ok s)
    (hlisted : (t.policy.field "steps").getD (.list []) = .list t.steps) :
    t.policy.asDict.isSome = true ∧ t.steps.mapM stepRef = .ok s.steps ∧
      definitions t.catalog.rules ruleKeys (referenced "rule" s.steps) = .ok s.rules ∧
      definitions t.catalog.scorecards scorecardKeys (referenced "scorecard" s.steps) =
        .ok s.scorecards ∧
      definitions t.catalog.decisionTables tableKeys (referenced "decision_table" s.steps) =
        .ok s.decisionTables := by
  unfold policySnapshot at h
  cases hd : t.policy.asDict with
  | none =>
    rw [hd] at h
    cases h
  | some kvs =>
    rw [hd] at h
    obtain ⟨steps, hsteps, h⟩ := bind_eq_ok.1 h
    obtain ⟨refs, hrefs, h⟩ := bind_eq_ok.1 h
    obtain ⟨rules, hrules, h⟩ := bind_eq_ok.1 h
    obtain ⟨cards, hcards, h⟩ := bind_eq_ok.1 h
    obtain ⟨tables, htables, h⟩ := bind_eq_ok.1 h
    cases h
    have heq : steps = t.steps := by
      cases hf : t.policy.field "steps" with
      | none =>
        rw [hf] at hsteps hlisted
        cases hsteps
        exact Value.list.inj hlisted
      | some v =>
        rw [hf] at hsteps hlisted
        have hv : v = .list t.steps := hlisted
        rw [hv] at hsteps
        unfold Value.orElse at hsteps
        dsimp only at hsteps
        split at hsteps
        · exact (Except.ok.inj hsteps).symm
        · rename_i hempty
          cases hsteps
          simpa [Value.truthy] using hempty
    exact ⟨rfl, heq ▸ hrefs, hrules, hcards, htables⟩

theorem referenced_mem (hrefs : t.steps.mapM stepRef = .ok s.steps)
    (hname : ∀ s, (s, kind) ∈ stepTypes → s = name)
    (hother : kind ≠ .other ∧ kind ≠ .unhashable) (h : Refers t kind id) (hid : id ≠ "") :
    .str id ∈ referenced name s.steps := by
  obtain ⟨step, hstep, hkind, href⟩ := h
  obtain ⟨ref, hmem, hval⟩ := (mapM_mem hrefs).1 step hstep
  unfold stepRef at hval
  split at hval
  · cases hval
  · cases hval
    refine List.mem_map.2 ⟨_, List.mem_filter.2 ⟨hmem, ?_⟩, href⟩
    rw [stepKind_name hkind hname hother, href]
    simp [Value.truthy, hid]

theorem unchanged_parts (h : (diffSnapshots floats current (some previous)).changed = false) :
    (∀ k ∈ current.steps.map stepKey, keyIn (previous.steps.map stepKey) k = true) ∧
    (∀ k ∈ previous.steps.map stepKey, keyIn (current.steps.map stepKey) k = true) ∧
    (entityDiff floats current.rules previous.rules).isEmpty = true ∧
    (entityDiff floats current.scorecards previous.scorecards).isEmpty = true ∧
    (entityDiff floats current.decisionTables previous.decisionTables).isEmpty = true := by
  simp only [diffSnapshots, Option.isSome_some, if_true, Option.getD_some, Bool.or_eq_false_iff,
    Bool.not_eq_false', List.isEmpty_iff, List.filter_eq_nil_iff, Bool.not_eq_true',
    Bool.not_eq_false] at h
  obtain ⟨⟨⟨⟨hadded, hremoved⟩, hrules⟩, hcards⟩, htables⟩ := h
  exact ⟨hadded, hremoved, hrules, hcards, htables⟩

theorem keys_of_unchanged {a b : Tenant} {sa sb : Snapshot} (ha : a.steps.mapM stepRef = .ok sa.steps)
    (hb : b.steps.mapM stepRef = .ok sb.steps)
    (h : ∀ k ∈ sa.steps.map stepKey, keyIn (sb.steps.map stepKey) k = true) :
    ∀ step ∈ a.steps, ∃ step' ∈ b.steps,
      pyEq ((step.field "type").getD .null) ((step'.field "type").getD .null) = true ∧
      pyEq (refId step) (refId step') = true := by
  have hkey : ∀ {step : Value} {r : StepRef}, stepRef step = .ok r →
      stepKey r = ((step.field "type").getD .null, refId step) := by
    intro step r hr
    unfold stepRef at hr
    split at hr
    · cases hr
    · cases hr
      rfl
  intro step hstep
  obtain ⟨r, hr, hval⟩ := (mapM_mem ha).1 step hstep
  obtain ⟨k, hk, heq⟩ := List.any_eq_true.1 (h _ (List.mem_map_of_mem hr))
  obtain ⟨r', hr', rfl⟩ := List.mem_map.1 hk
  obtain ⟨step', hstep', hval'⟩ := (mapM_mem hb).2 r' hr'
  grind

theorem objects_of_mapM (h : t.steps.mapM stepRef = .ok s.steps) :
    ∀ step ∈ t.steps, step.asDict.isSome = true := by grind [mapM_mem, stepRef]

theorem alike_of_unchanged {β : Type} {f : Value → β}
    {keys : List String} {collection collection' : Dict} {d d' : Dict}
    (hname : ∀ s, (s, kind) ∈ stepTypes → s = name) (hother : kind ≠ .other ∧ kind ≠ .unhashable)
    (hnow : now.steps.mapM stepRef = .ok current.steps)
    (hbefore : before.steps.mapM stepRef = .ok previous.steps)
    (hempty : collection.lookup "" = none) (hempty' : collection'.lookup "" = none)
    (hd : definitions collection keys (referenced name current.steps) = .ok d)
    (hd' : definitions collection' keys (referenced name previous.steps) = .ok d')
    (hkeys : keys.Nodup) (hdiff : (entityDiff floats d d').isEmpty = true)
    (hid : Refers now kind id) (hid' : Refers before kind id)
    (hf : ∀ e e', collection.lookup id = some e → collection'.lookup id = some e' →
      e.asDict.isSome = true → e'.asDict.isSome = true →
      (∀ key ∈ keys, (toJson floats ((e.field key).getD .null)).norm =
        (toJson floats ((e'.field key).getD .null)).norm) → f e = f e') :
    Alike f collection collection' id := by
  unfold Alike
  by_cases hne : id = ""
  · subst hne
    rw [hempty, hempty']
  · rcases unchanged_entity hd hd' hkeys hdiff (referenced_mem hnow hname hother hid hne)
      (referenced_mem hbefore hname hother hid' hne) with ⟨h1, h2⟩ | ⟨e, e', he, he', ho, ho', htext⟩
    · rw [h1, h2]
    grind -ring -linarith [Option.filter_eq_some_iff]

theorem refers_of_keys {a b : Tenant} (hkeys : ∀ step ∈ a.steps, ∃ step' ∈ b.steps,
      pyEq ((step.field "type").getD .null) ((step'.field "type").getD .null) = true ∧
      pyEq (refId step) (refId step') = true)
    (h : Refers a kind id) : Refers b kind id := by
  obtain ⟨step, hstep, hkind, href⟩ := h
  obtain ⟨step', hstep', htype, heq⟩ := hkeys step hstep
  exact ⟨step', hstep', (stepKind_congr htype).symm.trans hkind, pyEq_str (href ▸ heq)⟩

/-! #### Scores -/

section Scores
variable {ev : Evaluators} {catalog : Catalog}

def scoreOf (ev : Evaluators) (catalog : Catalog) (id : String) : Value :=
  match ((catalog.scorecards.lookup id).filter Value.truthy).map ev.scorecard with
  | some (.ok r) => (r.field "score").getD .null
  | _ => .null

theorem reading_score {step : Value} {x : ℕ × Option Value}
    (h : reading py ev catalog step = some x) :
    x.2 = (namedScorecard catalog step).map (scoreOf ev catalog) := by
  unfold reading at h
  split at h
  · rename_i v score hv hscore
    cases h
    by_cases hk : stepKind step = .scorecard
    · rw [stepScore_scorecard hk] at hscore
      unfold namedScorecard scoreOf
      rw [hk]
      cases href : refId step with
      | str id =>
        rw [href, pyGetTruthy_str] at hscore
        dsimp only
        cases hf : (catalog.scorecards.lookup id).filter Value.truthy with
        | none =>
          rw [hf] at hscore
          have hnone : ((catalog.scorecards.lookup id).any Value.truthy) = false := by
            cases hl : catalog.scorecards.lookup id with
            | none => rfl
            | some card =>
              rw [hl] at hf
              simpa [Option.filter] using hf
          rw [hnone]
          exact (Except.ok.inj hscore).symm
        | some card =>
          rw [hf] at hscore
          obtain ⟨hl, ht⟩ := Option.filter_eq_some_iff.1 hf
          rw [hl, Option.any_some, ht, if_pos rfl]
          obtain ⟨r, hr, rfl⟩ := map_eq_ok.1 (show (ev.scorecard card).map _ = _ from hscore)
          rw [Option.map_some, hf, Option.map_some, hr]
      | list _ | dict _ =>
        rw [href] at hscore
        cases hscore
      | _ =>
        rw [href] at hscore
        cases hscore
        rfl
    simp_all [stepScore_none, namedScorecard]
  · cases h

theorem lastScore_eq {steps : List Value} (score : Value)
    (h : ∀ step ∈ steps, ∃ x, reading py ev catalog step = some x) :
    lastScore py ev catalog score steps =
      ((steps.filterMap (namedScorecard catalog)).getLast?.map (scoreOf ev catalog)).getD score := by
  induction steps generalizing score with
  | nil => rfl
  | cons step steps ih =>
    obtain ⟨x, hx⟩ := h step List.mem_cons_self
    show lastScore py ev catalog (((reading py ev catalog step).bind Prod.snd).getD score) steps = _
    rw [ih _ fun st hst => h st (List.mem_cons_of_mem _ hst), hx, Option.bind_some,
      reading_score hx]
    grind

end Scores

theorem decide_congr (py : PyText) (ev : Evaluators) {a b : Catalog} {steps steps' : List Value}
    (hcover : ∀ step ∈ steps, ∃ step' ∈ steps', reading py ev a step = reading py ev b step')
    (hcover' : ∀ step ∈ steps', ∃ step' ∈ steps, reading py ev b step = reading py ev a step')
    (hscore : (∀ step ∈ steps, ∃ x, reading py ev a step = some x) →
      (∀ step ∈ steps', ∃ x, reading py ev b step = some x) →
      lastScore py ev a .null steps = lastScore py ev b .null steps') :
    (steps.foldlM (decideStep py ev a) ("pending", .null)).toOption =
      (steps'.foldlM (decideStep py ev b) ("pending", .null)).toOption := by
  have hpending : Named "pending" := Or.inl rfl
  rcases decide_spec py ev a hpending .null steps with
    ⟨⟨step, hstep, hnone⟩, e, he⟩ | ⟨o, ho, hreach⟩
  · obtain ⟨step', hstep', heq⟩ := hcover step hstep
    rcases decide_spec py ev b hpending .null steps' with
      ⟨-, e', he'⟩ | ⟨o', ho', hreach'⟩
    · rw [he, he']
      rfl
    · obtain ⟨x, hx, -⟩ := hreach'.votes step' hstep'
      rw [← heq, hnone] at hx
      cases hx
  · rcases decide_spec py ev b hpending .null steps' with
      ⟨⟨step, hstep, hnone⟩, -⟩ | ⟨o', ho', hreach'⟩
    · obtain ⟨step', hstep', heq⟩ := hcover' step hstep
      obtain ⟨x, hx, -⟩ := hreach.votes step' hstep'
      rw [← heq, hnone] at hx
      cases hx
    · -- each outcome is reached by a vote the other side has too
      have hle : ∀ {a b : Catalog} {steps steps' : List Value} {o o' : String},
          Reaches py ev a steps "pending" o → Reaches py ev b steps' "pending" o' →
          (∀ step ∈ steps, ∃ step' ∈ steps', reading py ev a step = reading py ev b step') →
          rank o ≤ rank o' := by
        intro a b steps steps' o o' hr hr' hc
        rcases hr.reached with h | ⟨step, hstep, x, hx, heq⟩
        · rw [h]
          exact hr'.above
        · obtain ⟨step', hstep', hsame⟩ := hc step hstep
          obtain ⟨y, hy, hrank⟩ := hr'.votes step' hstep'
          grind
      have hrank := le_antisymm (hle hreach hreach' hcover) (hle hreach' hreach hcover')
      rw [ho, ho', named_inj hreach.named hreach'.named hrank, hscore
        (fun step hstep => (hreach.votes step hstep).imp fun _ h => h.1)
        (fun step hstep => (hreach'.votes step hstep).imp fun _ h => h.1)]

theorem covered_of_unchanged (hnow : policySnapshot now = .ok current)
    (hbefore : policySnapshot before = .ok previous)
    (hdiff : (diffSnapshots floats current (some previous)).changed = false)
    (hkept : WellKept floats now) (hkept' : WellKept floats before) (hsame : Comparable now before)
    (vars : Dict) :
    Covered py search fs vars now.catalog before.catalog now.steps before.steps ∧
      Covered py search fs vars before.catalog now.catalog before.steps now.steps := by
  obtain ⟨-, hrefs, hrules, hcards, htables⟩ := policySnapshot_ok hnow hkept.listed
  obtain ⟨-, hrefs', hrules', hcards', htables'⟩ := policySnapshot_ok hbefore hkept'.listed
  obtain ⟨hadded, hremoved, hdrules, hdcards, hdtables⟩ := unchanged_parts hdiff
  have hkeys := keys_of_unchanged hrefs hrefs' hadded
  have hkeys' := keys_of_unchanged hrefs' hrefs hremoved
  have halikeRules : ∀ id, Refers now .rule id →
      Alike (definitionTree py) now.catalog.rules before.catalog.rules id := by
    intro id hid
    have hid' := refers_of_keys hkeys hid
    refine alike_of_unchanged (by simp [stepTypes]) (by decide) hrefs hrefs' hkept.named.1 hkept'.named.1
      hrules hrules' (by decide) hdrules hid hid' ?_
    intro r r' hr hr' hd hd' htext
    have hentry : ∀ key ∈ ["tree", "nodes"],
        (r.field key).getD .null = (r'.field key).getD .null := fun key hkey =>
      stored_eq (hkept.rules id r hid hr key hkey) (hkept'.rules id r' hid' hr' key hkey)
        (htext key (List.mem_cons_of_mem _ hkey))
    exact definitionTree_congr hd hd' (hentry "tree" (by decide)) (hentry "nodes" (by decide))
  have halikeCards : ∀ id, Refers now .scorecard id →
      Alike (evaluateScorecard py fs vars) now.catalog.scorecards before.catalog.scorecards id := by
    intro id hid
    refine alike_of_unchanged (by simp [stepTypes]) (by decide) hrefs hrefs' hkept.named.2.1
      hkept'.named.2.1 hcards hcards' (by decide) hdcards hid (refers_of_keys hkeys hid) ?_
    intro c c' hc hc' hd hd' _
    exact evaluateScorecard_congr py fs (hd.trans hd'.symm) (hsame.scorecards id c c' hid hc hc')
  have halikeTables : ∀ id, Refers now .decisionTable id →
      Alike (fun t => evaluateDecisionTable py search t vars) now.catalog.decisionTables
        before.catalog.decisionTables id := by
    intro id hid
    have hid' := refers_of_keys hkeys hid
    refine alike_of_unchanged (by simp [stepTypes]) (by decide) hrefs hrefs' hkept.named.2.2
      hkept'.named.2.2 htables htables' (by decide) hdtables hid hid' ?_
    intro t t' ht ht' hd hd' htext
    have hentry : ∀ key ∈ ["hit_policy", "rows"],
        (t.field key).getD .null = (t'.field key).getD .null := fun key hkey =>
      stored_eq (hkept.tables id t hid ht key hkey) (hkept'.tables id t' hid' ht' key hkey)
        (htext key (List.mem_cons_of_mem _ hkey))
    exact evaluateDecisionTable_congr vars hd hd' (hentry "hit_policy" (by decide))
      (hentry "rows" (by decide)) (hsame.tables id t t' hid ht ht')
  refine ⟨⟨objects_of_mapM hrefs, objects_of_mapM hrefs', hkeys, hkept.doubles, hkept'.doubles,
    ?_, ?_, ?_, ?_⟩, ⟨objects_of_mapM hrefs', objects_of_mapM hrefs, hkeys', hkept'.doubles,
    hkept.doubles, ?_, ?_, ?_, ?_⟩⟩
  · intro step hstep hk ht
    obtain ⟨step', hstep', hun, hcand⟩ := hsame.outcomes step hstep ⟨hk, ht⟩
    exact ⟨step', hstep', hun.1, hcand⟩
  · exact fun step hstep hk id hid => halikeRules id ⟨step, hstep, hk, hid⟩
  · exact fun step hstep hk id hid => halikeCards id ⟨step, hstep, hk, hid⟩
  · exact fun step hstep hk id hid => halikeTables id ⟨step, hstep, hk, hid⟩
  · intro step hstep hk ht
    obtain ⟨step', hstep', hun, hcand⟩ := hsame.outcomes' step hstep ⟨hk, ht⟩
    exact ⟨step', hstep', hun.1, hcand⟩
  · exact fun step hstep hk id hid =>
      (halikeRules id (refers_of_keys hkeys' ⟨step, hstep, hk, hid⟩)).symm
  · exact fun step hstep hk id hid =>
      (halikeCards id (refers_of_keys hkeys' ⟨step, hstep, hk, hid⟩)).symm
  · exact fun step hstep hk id hid =>
      (halikeTables id (refers_of_keys hkeys' ⟨step, hstep, hk, hid⟩)).symm

theorem iterate_steps (hkept : WellKept floats t) :
    iterate (t.policy.field "steps") = .ok t.steps := by
  have hlisted := hkept.listed
  cases hf : t.policy.field "steps" with
  | none =>
    rw [hf] at hlisted
    have hnil : [] = t.steps := Value.list.inj hlisted
    rw [← hnil]
    rfl
  | some v =>
    rw [hf] at hlisted
    have hv : v = .list t.steps := hlisted
    rw [hv]
    rfl

theorem scoreOf_congr {vars : Dict}
    (hcover : Covered py search fs vars now.catalog before.catalog now.steps before.steps)
    (hid : now.lastScorecard = some id) :
    scoreOf (evaluators py search fs ruleTree vars) now.catalog id =
      scoreOf (evaluators py search fs ruleTree vars) before.catalog id := by
  obtain ⟨step, hstep, hnamed⟩ := List.mem_filterMap.1 (List.mem_of_getLast? hid)
  unfold namedScorecard at hnamed
  split at hnamed
  · rename_i id' hk href
    split_ifs at hnamed
    cases hnamed
    unfold scoreOf
    rw [show _ = _ from (hcover.scorecards step hstep hk _ href).scorecard search ruleTree]
  · cases hnamed

end Unchanged

/-! ### Two states of a policy -/

/-- The text of a double: its digits, or one of the words for the others. -/
def decimalFloat : F64 → List Char
  | .finite q => (Text.decimalText q).toList
  | .infinite false => "Infinity".toList
  | .infinite true => "-Infinity".toList
  | .nan => "NaN".toList

theorem decimalFloat_reads {x : F64} (hx : x ≠ .nan)
    (hd : ∀ q, x = .finite q → Text.roundF64 q = some q) :
    Text.readFloat (decimalFloat x) = some x := by
  cases x with
  | finite q => exact Text.readFloat_decimalText (hd q rfl)
  | infinite neg =>
    cases neg with
    | true => decide
    | false => decide
  | nan => exact absurd rfl hx

theorem decimalFloat_chars (x : F64) : ∀ c ∈ decimalFloat x, c.isDigit ∨
    c ∈ ['-', '+', '.', 'e', 'N', 'a', 'I', 'n', 'f', 'i', 't', 'y'] := by
  have hrepr : ∀ {n : ℤ}, ∀ c ∈ n.repr.toList, c.isDigit ∨
      c ∈ ['-', '+', '.', 'e', 'N', 'a', 'I', 'n', 'f', 'i', 't', 'y'] := by
    intro n c hc
    rcases mem_repr_digits hc with hd | rfl
    · exact Or.inl hd
    · decide
  have hword : ∀ c ∈ ['.', '0', 'e', '-'], c.isDigit ∨
      c ∈ ['-', '+', '.', 'e', 'N', 'a', 'I', 'n', 'f', 'i', 't', 'y'] :=
    List.all_iff_forall_prop.1 (by decide)
  cases x with
  | infinite neg =>
    cases neg with
    | true => exact List.all_iff_forall_prop.1 (by decide)
    | false => exact List.all_iff_forall_prop.1 (by decide)
  | nan => exact List.all_iff_forall_prop.1 (by decide)
  | finite q =>
    intro c hc
    have hc : c ∈ (Text.decimalText q).toList := hc
    unfold Text.decimalText at hc
    split at hc
    · rw [String.toList_append] at hc
      rcases List.mem_append.1 hc with hc | hc
      · exact hrepr c hc
      · exact hword c (List.mem_append_left ['e', '-'] hc)
    grind [String.toList_append, Nat.toList_repr, Text.isDigit_toDigits]

def decimalFloats : JsonFloats where
  text x := ⟨decimalFloat x, decimalFloat_chars x, by
    cases x with
    | finite q =>
      obtain ⟨c, hc, hmark⟩ := decimalText_marked q
      refine ⟨c, hc, ?_⟩
      rcases hmark with rfl | rfl
      · decide
      · decide
    | infinite neg =>
      cases neg with
      | true => exact ⟨'I', by decide, by decide⟩
      | false => exact ⟨'I', by decide, by decide⟩
    | nan => exact ⟨'N', by decide, by decide⟩⟩
  inj hx hy hdx hdy h := by
    have htext := congrArg FloatText.text h
    have hread := decimalFloat_reads hx hdx
    rw [show decimalFloat _ = decimalFloat _ from htext, decimalFloat_reads hy hdy] at hread
    exact (Option.some.inj hread).symm

/-- No formulas, and a logarithm that nobody takes. -/
def noFormulas : Formulas := ⟨id, fun _ _ => .error .valueError⟩

def outcomeStep (outcome : String) : Value :=
  .dict [("type", .str "outcome"), ("ref_id", .str outcome)]

def scorecardStep (id : String) : Value := .dict [("type", .str "scorecard"), ("ref_id", .str id)]

def policyOf (steps : List Value) : Value := .dict [("steps", .list steps)]

/-- A scorecard that gives everyone the same score. -/
def flatCard (entries : Dict) : Value :=
  .dict ([("base_score", Value.int 500), ("bins", Value.list [])] ++ entries)

/-- The steps in another order, a vote cast twice, and a scorecard described. -/
def tidied : Tenant :=
  ⟨policyOf [outcomeStep "approve", scorecardStep "sc"],
    ⟨[], [("sc", flatCard [("description", .str "flat")])], []⟩⟩

def untidy : Tenant :=
  ⟨policyOf [scorecardStep "sc", outcomeStep "approve", outcomeStep "approve"],
    ⟨[], [("sc", flatCard [])], []⟩⟩

theorem wellKept_of_texts {t : Tenant} (hlist : (t.policy.field "steps").getD (.list []) =
      .list t.steps) (hrules : t.catalog.rules = []) (htables : t.catalog.decisionTables = [])
    (hcards : t.catalog.scorecards.lookup "" = none)
    (hrefs : ∀ step ∈ t.steps, (refId step).asStr.isSome = true) :
    WellKept decimalFloats t := by
  refine ⟨hlist, ⟨by rw [hrules]; rfl, hcards, by rw [htables]; rfl⟩, ?_, ?_, ?_⟩
  · intro step hstep q hq
    have hs := hrefs step hstep
    rw [hq] at hs
    cases hs
  · intro id rule _ hl
    rw [hrules] at hl
    cases hl
  · intro id table _ hl
    rw [htables] at hl
    cases hl

theorem tidied_comparable : Comparable tidied untidy := by
  have hnone : ∀ t ∈ [tidied, untidy], ∀ step ∈ t.steps, ¬ Unnamed step := by
    have hall : ∀ t ∈ [tidied, untidy], ∀ step ∈ t.steps, (refId step).truthy = true := by decide
    intro t ht step hstep hun
    have := hall t ht step hstep
    rw [hun.2] at this
    cases this
  refine ⟨rfl, ?_, ?_, by decide, ?_, ?_⟩
  · simp_all
  · simp_all
  · intro id card card' _ hl hl' key hkey
    obtain rfl : card = flatCard [("description", .str "flat")] := by grind [tidied]
    obtain rfl : card' = flatCard [] := by grind [untidy]
    revert key
    decide
  · intro id table table' _ hl
    cases hl

example : (decide decimalPy (fun _ _ => false) noFormulas (fun _ _ => .error .valueError)
    (fun _ => .ok []) untidy []).toOption = some ("approve", .int 500) := by decide +kernel

/-- A policy whose only step votes by its configuration. -/
def configured (outcome : String) : Tenant :=
  ⟨policyOf [.dict [("type", .str "outcome"), ("config", .dict [("outcome", .str outcome)])]],
    ⟨[], [], []⟩⟩

end RuleMind.PolicyDiff
