/-
  The rollback of a policy to an earlier release: `app/release.py`, on the rows of
  `app/storage.py` that it reads and writes.

  Each call of the storage is a transaction of its own and may fail, before or after what it
  writes is there (`Fault`).  Of a row there is what a snapshot or a decision reads; the
  history of the entities is left out.
-/
import RuleMind.PolicyDiff
import RuleMind.Lib.Prog

namespace RuleMind.Rollback

open PolicyDiff
open RuleTree (iterate)
open DecisionTable (evaluateDecisionTable)

/-! ### Rows -/

/-- `value or []`. -/
def orEmpty (v : Value) : Value := if v.truthy then v else .list []

/-- `value if value else None`. -/
def orNone (v : Value) : Value := if v.truthy then v else .null

/-- An entry of a patch replaces what is there, unless it is null. -/
def keep (patch : Dict) (key : String) (current : Value) : Value :=
  let v := (patch.lookup key).getD .null
  if v.isNull then current else v

structure RuleRow where
  name : Value
  nodes : Value
  tree : Value
  version : ℕ

/-- `_rule_to_dict`. -/
def RuleRow.toDict (id : String) (r : RuleRow) : Value :=
  .dict [("id", .str id), ("name", r.name), ("nodes", orEmpty r.nodes), ("tree", r.tree),
    ("version", .int r.version)]

/-- `update_rule`. -/
def RuleRow.update (r : RuleRow) (patch : Dict) : RuleRow where
  name := keep patch "name" r.name
  nodes := keep patch "nodes" (orEmpty r.nodes)
  tree := keep patch "tree" r.tree
  version := r.version + if patch = [] then 0 else 1

structure ScorecardRow where
  name : Value
  baseScore : Value
  maxScore : Value
  bins : Value
  version : ℕ

/-- `_scorecard_to_dict`. -/
def ScorecardRow.toDict (id : String) (r : ScorecardRow) : Value :=
  .dict [("id", .str id), ("name", r.name), ("base_score", r.baseScore),
    ("max_score", r.maxScore), ("bins", orEmpty r.bins), ("version", .int r.version)]

/-- `update_scorecard`: entries that are no column are dropped.  The scores are integers. -/
def ScorecardRow.update (r : ScorecardRow) (patch : Dict) : ScorecardRow where
  name := keep patch "name" r.name
  baseScore := keep patch "base_score" r.baseScore
  maxScore := keep patch "max_score" r.maxScore
  bins := keep patch "bins" (orEmpty r.bins)
  version := r.version + if patch = [] then 0 else 1

structure TableRow where
  name : Value
  hitPolicy : Value
  inputs : Value
  outputs : Value
  rows : Value
  defaultRow : Value
  version : ℕ

/-- `_decision_table_to_dict`. -/
def TableRow.toDict (id : String) (r : TableRow) : Value :=
  .dict [("id", .str id), ("name", r.name), ("hit_policy", r.hitPolicy),
    ("inputs", orEmpty r.inputs), ("outputs", orEmpty r.outputs), ("rows", orEmpty r.rows),
    ("default_row", orNone r.defaultRow), ("version", .int r.version)]

/-- `update_decision_table`, where null replaces too. -/
def TableRow.update (r : TableRow) (patch : Dict) : TableRow where
  name := (patch.lookup "name").getD r.name
  hitPolicy := (patch.lookup "hit_policy").getD r.hitPolicy
  inputs := (patch.lookup "inputs").getD r.inputs
  outputs := (patch.lookup "outputs").getD r.outputs
  rows := (patch.lookup "rows").getD r.rows
  defaultRow := (patch.lookup "default_row").getD r.defaultRow
  version := r.version + 1

structure PolicyRow where
  name : Value
  steps : Value
  defaultOutcome : Value
  status : String
  version : ℕ

/-- `_policy_to_dict`. -/
def PolicyRow.toDict (id : String) (r : PolicyRow) : Value :=
  .dict [("id", .str id), ("name", r.name), ("steps", orEmpty r.steps),
    ("defaultOutcome", r.defaultOutcome), ("status", .str r.status), ("version", .int r.version)]

/-- `update_policy`. -/
def PolicyRow.update (r : PolicyRow) (patch : Dict) : PolicyRow where
  name := keep patch "name" r.name
  steps := keep patch "steps" (orEmpty r.steps)
  defaultOutcome := keep patch "defaultOutcome" r.defaultOutcome
  status := r.status
  version := r.version + if patch = [] then 0 else 1

structure Promotion where
  id : ℕ
  entityType : String
  entityId : String
  fromStatus : String
  toStatus : String
  promotedBy : String
  reason : String
  snapshot : Option Snapshot

/-! ### The store -/

structure Store where
  policies : List (String × PolicyRow)
  rules : List (String × RuleRow)
  scorecards : List (String × ScorecardRow)
  decisionTables : List (String × TableRow)
  promotions : List Promotion

/-- A change of the row under an id, if there is one. -/
def modifyRow {R : Type} (rows : List (String × R)) (id : String) (f : R → R) : List (String × R) :=
  rows.map fun row => if row.1 = id then (row.1, f row.2) else row

/-- The rows as `get_*` returns them. -/
def toDicts {R : Type} (toDict : String → R → Value) (rows : List (String × R)) : Dict :=
  rows.map fun row => (row.1, toDict row.1 row.2)

/-- A policy and the catalog, as a decision reads them. -/
def Store.tenant (s : Store) (policyId : String) : Option Tenant :=
  (s.policies.lookup policyId).map fun row => ⟨row.toDict policyId,
    ⟨toDicts RuleRow.toDict s.rules, toDicts ScorecardRow.toDict s.scorecards,
      toDicts TableRow.toDict s.decisionTables⟩⟩

inductive Fault
  | none
  | before
  | after
  deriving DecidableEq

/-- A store, and what becomes of the calls to come. -/
structure World where
  store : Store
  faults : ℕ → Fault

inductive Failure
  | valueError (message : String)
  | database
  deriving DecidableEq

section Calls
variable {α : Type}

def call (f : Store → α × Store) : Prog World Failure α := fun w =>
  match w.faults 0 with
  | .none => (.ok (f w.store).1, ⟨(f w.store).2, fun k => w.faults (k + 1)⟩)
  | .before => (.error .database, ⟨w.store, fun k => w.faults (k + 1)⟩)
  | .after => (.error .database, ⟨(f w.store).2, fun k => w.faults (k + 1)⟩)

def read (f : Store → α) : Prog World Failure α := call fun s => (f s, s)

def write (f : Store → Store) : Prog World Failure Unit := call fun s => ((), f s)

end Calls

/-! ### Rollback -/

def findSnapshot (s : Store) (policyId : String) (promotionId : ℕ) : Option Snapshot :=
  match s.promotions.find? fun p => p.id = promotionId with
  | some p => if p.entityType = "policy" ∧ p.entityId = policyId then p.snapshot else none
  | none => none

/-- The entries of a definition that are written back. -/
def patchOf (keys : List String) (definition : Value) : Dict :=
  keys.map fun key => (key, (definition.field key).getD .null)

def restoreRule (s : Store) (entry : String × Value) : Store :=
  { s with rules := modifyRow s.rules entry.1 (·.update (patchOf ruleKeys entry.2)) }

def restoreScorecard (s : Store) (entry : String × Value) : Store :=
  { s with
    scorecards := modifyRow s.scorecards entry.1 (·.update (patchOf scorecardKeys entry.2)) }

def restoreTable (s : Store) (entry : String × Value) : Store :=
  { s with
    decisionTables := modifyRow s.decisionTables entry.1 (·.update (patchOf tableKeys entry.2)) }

/-- The definitions of a snapshot whose entities are still there are written back. -/
def restoreAll (known : Store → String → Bool) (restore : Store → String × Value → Store) :
    Dict → Prog World Failure (List String)
  | [] => pure []
  | entry :: entries => do
    let found ← read fun s => known s entry.1
    if found then
      write fun s => restore s entry
      let ids ← restoreAll known restore entries
      pure (entry.1 :: ids)
    else restoreAll known restore entries

def hydrate (s : StepRef) : Value := .dict [("type", s.type), ("ref_id", s.refId), ("id", s.id)]

def policyPatch (snapshot : Snapshot) : Dict :=
  (if snapshot.name.isNull then [] else [("name", snapshot.name)]) ++
    (if snapshot.defaultOutcome.isNull then []
      else [("defaultOutcome", snapshot.defaultOutcome)]) ++
    if snapshot.steps.isEmpty then [] else [("steps", Value.list (snapshot.steps.map hydrate))]

def Store.updatePolicy (s : Store) (policyId : String) (patch : Dict) : Store :=
  { s with policies := modifyRow s.policies policyId (·.update patch) }

/-- `add_promotion` of a rollback, with the next number. -/
def Store.addPromotion (s : Store) (policyId status actor reason : String)
    (snapshot : Option Snapshot) : Store :=
  { s with promotions := s.promotions ++ [⟨s.promotions.length + 1, "policy", policyId, status,
    status, actor, reason, snapshot⟩] }

/-- `rollback_policy`: the ids of the rules, scorecards and tables that were restored. -/
def rollbackPolicy (policyId : String) (promotionId : ℕ) (actor : String)
    (reason : Option String) :
    Prog World Failure (List String × List String × List String) := do
  let policy ← read fun s => s.policies.lookup policyId
  match policy with
  | none => .raise (.valueError ("Policy " ++ policyId ++ " not found."))
  | some policy =>
    let snapshot ← read fun s => findSnapshot s policyId promotionId
    match snapshot with
    | none => .raise (.valueError ("No snapshot found for promotion " ++ promotionId.repr ++
        " of policy " ++ policyId ++ "."))
    | some snapshot =>
      let rules ← restoreAll (fun s id => (s.rules.lookup id).isSome) restoreRule snapshot.rules
      let scorecards ← restoreAll (fun s id => (s.scorecards.lookup id).isSome) restoreScorecard
        snapshot.scorecards
      let tables ← restoreAll (fun s id => (s.decisionTables.lookup id).isSome) restoreTable
        snapshot.decisionTables
      write fun s => s.updatePolicy policyId (policyPatch snapshot)
      -- whatever is raised while the new snapshot is taken is swallowed
      let current ← Prog.attempt (read fun s => s.tenant policyId)
      let snapshot := (current.toOption.bind id).bind fun t => (policySnapshot t).toOption
      write fun s => s.addPromotion policyId policy.status actor
        ((reason.filter (· ≠ "")).getD ("Rollback to promotion #" ++ promotionId.repr)) snapshot
      pure (rules, scorecards, tables)

/-! ### Calls that return -/

variable {w w' : World}

theorem call_ok {α : Type} {f : Store → α × Store} {a : α}
    (h : call f w = (.ok a, w')) : a = (f w.store).1 ∧ w'.store = (f w.store).2 := by
  unfold call at h
  grind

theorem read_ok {α : Type} {f : Store → α} {a : α} (h : read f w = (.ok a, w')) :
    a = f w.store ∧ w'.store = w.store := call_ok h

theorem write_ok {f : Store → Store} {u : Unit} (h : write f w = (.ok u, w')) :
    w'.store = f w.store := (call_ok h).2

def Calm (w : World) : Prop := ∀ k, w.faults k = .none

def Returns {α : Type} (m : Prog World Failure α) : Prop :=
  ∀ w, Calm w → ∃ a w', m w = (.ok a, w') ∧ Calm w'

namespace Returns
variable {α β : Type}

theorem pure (a : α) : Returns (Pure.pure a : Prog World Failure α) := fun w h => ⟨a, w, rfl, h⟩

theorem call (f : Store → α × Store) : Returns (call f) := by
  intro w h
  refine ⟨(f w.store).1, ⟨(f w.store).2, fun k => w.faults (k + 1)⟩, ?_, fun k => h (k + 1)⟩
  rw [Rollback.call, h 0]

theorem bind {m : Prog World Failure α} {f : α → Prog World Failure β} (hm : Returns m)
    (hf : ∀ a, Returns (f a)) : Returns (m >>= f) := by
  intro w h
  obtain ⟨a, w₁, hw₁, h₁⟩ := hm w h
  rw [Prog.bind_ok hw₁]
  exact hf a w₁ h₁

theorem attempt {m : Prog World Failure α} (hm : Returns m) : Returns m.attempt := by
  intro w h
  obtain ⟨a, w₁, hw₁, h₁⟩ := hm w h
  simp_all [Prog.attempt]

end Returns

section Restore
variable {known : Store → String → Bool} {restore : Store → String × Value → Store}

theorem restoreAll_ok (hgone : ∀ s e, known s e.1 = false → restore s e = s) {entries : Dict}
    {w w' : World} {ids : List String} (h : restoreAll known restore entries w = (.ok ids, w')) :
    w'.store = entries.foldl restore w.store := by
  induction entries generalizing w ids with
  | nil =>
    cases h
    rfl
  | cons entry entries ih =>
    obtain ⟨found, w₁, hread, h⟩ := Prog.bind_eq_ok h
    obtain ⟨hfound, hw₁⟩ := read_ok hread
    cases found with
    | true =>
      obtain ⟨_, w₂, hwrite, h⟩ := Prog.bind_eq_ok h
      obtain ⟨_, w₃, hrest, h⟩ := Prog.bind_eq_ok h
      cases h
      rw [ih hrest, write_ok hwrite, hw₁, List.foldl_cons]
    | false => grind -ring -linarith

theorem restoreAll_returns (entries : Dict) : Returns (restoreAll known restore entries) := by
  induction entries with
  | nil => exact .pure []
  | cons entry entries ih =>
    refine .bind (.call _) fun found => ?_
    cases found with
    | true => exact .bind (.call _) fun _ => .bind ih fun _ => .pure _
    | false => exact ih

end Restore

/-! ### What a rollback leaves -/

section Rows
variable {R : Type} {rows : List (String × R)} {id key : String}

theorem lookup_modifyRow (f : R → R) :
    (modifyRow rows id f).lookup key = if key = id then (rows.lookup key).map f
      else rows.lookup key := by
  induction rows with
  | nil => simp [modifyRow]
  | cons row rows ih =>
    obtain ⟨k, r⟩ := row
    rw [modifyRow] at ih
    by_cases hk : key = k
    · grind [modifyRow]
    · have hne : (key == k) = false := beq_false_of_ne hk
      by_cases hid : k = id
      · simp only [modifyRow, List.map_cons, if_pos hid, List.lookup_cons, hne]
        exact ih
      · simp only [modifyRow, List.map_cons, if_neg hid, List.lookup_cons, hne]
        exact ih

theorem modifyRow_unknown (f : R → R) (h : (rows.lookup id).isSome = false) :
    modifyRow rows id f = rows := by
  refine (List.map_congr_left fun row hrow => ?_).trans (List.map_id _)
  by_cases hid : row.1 = id
  · have hmem := List.lookup_isSome_iff.2 ⟨row, hrow, beq_iff_eq.2 hid.symm⟩
    rw [h] at hmem
    cases hmem
  · rw [if_neg hid]
    rfl

/-- The rows after the definitions have been written back. -/
def restoredRows (update : R → Value → R) (entries : Dict) (rows : List (String × R)) :
    List (String × R) :=
  entries.foldl (fun rows e => modifyRow rows e.1 fun row => update row e.2) rows

theorem lookup_restored (update : R → Value → R) {entries : Dict}
    (hkeys : (entries.map Prod.fst).Nodup) :
    (restoredRows update entries rows).lookup key =
      match entries.lookup key with
      | some definition => (rows.lookup key).map (update · definition)
      | none => rows.lookup key := by
  induction entries generalizing rows with
  | nil => rfl
  | cons e entries ih =>
    obtain ⟨k, definition⟩ := e
    obtain ⟨hfresh, hkeys⟩ := List.nodup_cons.1 hkeys
    show (restoredRows update entries (modifyRow rows k fun row => update row definition)).lookup
      key = _
    rw [ih hkeys, List.lookup_cons, lookup_modifyRow]
    grind

end Rows

/-- The store after what is written back, before the promotion is added. -/
def restored (s : Store) (policyId : String) (snapshot : Snapshot) : Store :=
  Store.updatePolicy (snapshot.decisionTables.foldl restoreTable
    (snapshot.scorecards.foldl restoreScorecard (snapshot.rules.foldl restoreRule s)))
    policyId (policyPatch snapshot)

def writeRule (row : RuleRow) (definition : Value) : RuleRow :=
  row.update (patchOf ruleKeys definition)

def writeScorecard (row : ScorecardRow) (definition : Value) : ScorecardRow :=
  row.update (patchOf scorecardKeys definition)

def writeTable (row : TableRow) (definition : Value) : TableRow :=
  row.update (patchOf tableKeys definition)

theorem foldl_restoreRule (entries : Dict) (s : Store) : entries.foldl restoreRule s =
    { s with rules := restoredRows writeRule entries s.rules } := by
  induction entries generalizing s with
  | nil => rfl
  | cons e entries ih => rw [List.foldl_cons, ih]; rfl

theorem foldl_restoreScorecard (entries : Dict) (s : Store) : entries.foldl restoreScorecard s =
    { s with scorecards := restoredRows writeScorecard entries s.scorecards } := by
  induction entries generalizing s with
  | nil => rfl
  | cons e entries ih => rw [List.foldl_cons, ih]; rfl

theorem foldl_restoreTable (entries : Dict) (s : Store) : entries.foldl restoreTable s =
    { s with decisionTables := restoredRows writeTable entries s.decisionTables } := by
  induction entries generalizing s with
  | nil => rfl
  | cons e entries ih => rw [List.foldl_cons, ih]; rfl

theorem restored_eq (s : Store) (policyId : String) (snapshot : Snapshot) :
    restored s policyId snapshot =
      { policies := modifyRow s.policies policyId fun row => row.update (policyPatch snapshot)
        rules := restoredRows writeRule snapshot.rules s.rules
        scorecards := restoredRows writeScorecard snapshot.scorecards s.scorecards
        decisionTables := restoredRows writeTable snapshot.decisionTables s.decisionTables
        promotions := s.promotions } := by
  rw [restored, foldl_restoreRule, foldl_restoreScorecard, foldl_restoreTable]
  rfl

theorem definitions_nodup {collection d : Dict} {keys : List String} {refs : List Value}
    (h : definitions collection keys refs = .ok d) : (d.map Prod.fst).Nodup := by
  have hfold : ∀ {refs : List Value} {kept : Dict}, (kept.map Prod.fst).Nodup →
      refs.foldlM (addDefinition collection keys) kept = .ok d → (d.map Prod.fst).Nodup := by
    intro refs
    induction refs with
    | nil =>
      intro kept hkept h
      cases h
      exact hkept
    | cons ref refs ih =>
      intro kept hkept h
      rw [List.foldlM_cons] at h
      obtain ⟨kept', hadd, h⟩ := bind_eq_ok.1 h
      refine ih ?_ h
      obtain ⟨found, -, hadd⟩ := bind_eq_ok.1 hadd
      split at hadd
      · obtain ⟨p, -, rfl⟩ := map_eq_ok.1 hadd
        exact (nodup_setKey hkept _ _).1
      · cases hadd
        exact hkept
  exact @hfold refs [] List.nodup_nil h

section Effect
variable {policyId actor : String} {promotionId : ℕ} {reason : Option String} {w : World}

theorem rollback_effect {w' : World} {ids : List String × List String × List String}
    (h : rollbackPolicy policyId promotionId actor reason w = (.ok ids, w')) :
    ∃ row snapshot taken text, w.store.policies.lookup policyId = some row ∧
      findSnapshot w.store policyId promotionId = some snapshot ∧
      w'.store = (restored w.store policyId snapshot).addPromotion policyId row.status actor text
        taken := by
  obtain ⟨policy, w₁, hread, h⟩ := Prog.bind_eq_ok h
  obtain ⟨rfl, hw₁⟩ := read_ok hread
  cases hrow : w.store.policies.lookup policyId with
  | none =>
    rw [hrow] at h
    cases h
  | some row =>
    rw [hrow] at h
    obtain ⟨found, w₂, hread, h⟩ := Prog.bind_eq_ok h
    obtain ⟨rfl, hw₂⟩ := read_ok hread
    rw [hw₁] at h
    cases hsnap : findSnapshot w.store policyId promotionId with
    | none =>
      rw [hsnap] at h
      cases h
    | some snapshot =>
      rw [hsnap] at h
      obtain ⟨_, w₃, hrules, h⟩ := Prog.bind_eq_ok h
      obtain ⟨_, w₄, hcards, h⟩ := Prog.bind_eq_ok h
      obtain ⟨_, w₅, htables, h⟩ := Prog.bind_eq_ok h
      obtain ⟨_, w₆, hpolicy, h⟩ := Prog.bind_eq_ok h
      obtain ⟨_, w₇, hcurrent, h⟩ := Prog.bind_eq_ok h
      obtain ⟨_, w₈, hpromotion, h⟩ := Prog.bind_eq_ok h
      cases h
      have hw₃ := restoreAll_ok (fun s e hgone => by
        rw [restoreRule, modifyRow_unknown _ hgone]) hrules
      have hw₄ := restoreAll_ok (fun s e hgone => by
        rw [restoreScorecard, modifyRow_unknown _ hgone]) hcards
      have hw₅ := restoreAll_ok (fun s e hgone => by
        rw [restoreTable, modifyRow_unknown _ hgone]) htables
      have hw₆ := write_ok hpolicy
      have hw₇ : w₇.store = w₆.store := by
        have hleft : (Prog.attempt (read fun s => s.tenant policyId) w₆).2 = w₇ := by rw [hcurrent]
        rw [← hleft]
        show (call _ w₆).2.store = w₆.store
        unfold call
        cases w₆.faults 0 with
        | none | before | after => rfl
      have hlast := write_ok hpromotion
      rw [hw₇, hw₆, hw₅, hw₄, hw₃, hw₂, hw₁] at hlast
      exact ⟨row, snapshot, _, _, rfl, rfl, hlast⟩

theorem read_store {α : Type} {f : Store → α} {w w' : World} {r : Except Failure α}
    (h : read f w = (r, w')) :
    w'.store = w.store ∧ w'.faults = fun k => w.faults (k + 1) := by
  unfold read call at h
  grind

theorem rollback_raises {w' : World} {e : Failure} (hcalm : ∀ k, 2 ≤ k → w.faults k = .none)
    (h : rollbackPolicy policyId promotionId actor reason w = (.error e, w')) :
    w'.store = w.store := by
  rw [rollbackPolicy, Prog.bind_apply] at h
  cases hread : read (fun s => s.policies.lookup policyId) w with
  | mk r w₁ =>
    obtain ⟨hstore₁, hfaults₁⟩ := read_store hread
    rw [hread] at h
    rcases r with e₁ | _ | row
    · cases h
      exact hstore₁
    · cases h
      exact hstore₁
    · dsimp only at h
      rw [Prog.bind_apply] at h
      cases hread' : read (fun s => findSnapshot s policyId promotionId) w₁ with
      | mk r w₂ =>
        obtain ⟨hstore₂, hfaults₂⟩ := read_store hread'
        rw [hread'] at h
        rcases r with e₂ | _ | snapshot
        · cases h
          exact hstore₂.trans hstore₁
        · cases h
          exact hstore₂.trans hstore₁
        · have hrest : Calm w₂ := by
            intro k
            rw [hfaults₂, hfaults₁]
            exact hcalm (k + 1 + 1) (by omega)
          -- from here on every call succeeds, and the rollback returns
          have hreturns : ∀ m : Prog World Failure (List String × List String × List String),
              Returns m → m w₂ ≠ (.error e, w') := by
            intro m hm heq
            obtain ⟨a, w₃, hok, -⟩ := hm w₂ hrest
            rw [hok] at heq
            cases heq
          exact absurd h (hreturns _ (.bind (restoreAll_returns _) fun _ =>
            .bind (restoreAll_returns _) fun _ => .bind (restoreAll_returns _) fun _ =>
              .bind (.call _) fun _ => .bind (.attempt (.call _)) fun _ =>
                .bind (.call _) fun _ => .pure _))

end Effect

/-! ### Steps that are written back -/

section Hydrated
variable {step : Value} {ref : StepRef}

theorem stepRef_eq (h : PolicyDiff.stepRef step = .ok ref) : step.asDict.isSome = true ∧
    ref.type = (step.field "type").getD .null ∧ ref.refId = refId step := by
  unfold PolicyDiff.stepRef at h
  grind

theorem stepKind_hydrate (h : PolicyDiff.stepRef step = .ok ref) :
    stepKind (hydrate ref) = stepKind step := by
  obtain ⟨-, htype, -⟩ := stepRef_eq h
  have hfield : (hydrate ref).field "type" = some ((step.field "type").getD .null) := by
    rw [← htype]
    rfl
  unfold stepKind
  rw [hfield]
  cases step.field "type" with
  | none => rfl
  | some v => rfl

theorem refId_hydrate (h : PolicyDiff.stepRef step = .ok ref) :
    refId (hydrate ref) = if (refId step).truthy then refId step else .null := by
  obtain ⟨-, -, href⟩ := stepRef_eq h
  have hid : (hydrate ref).field "ref_id" = some (refId step) := by
    rw [← href]
    rfl
  have hother : (hydrate ref).field "ref" = none := rfl
  rw [refId, hid, hother]
  rfl

theorem found_hydrate {β : Type} {f : Value → β} {a b : Dict} {found : Option β}
    (h : PolicyDiff.stepRef step = .ok ref) (hempty : a.lookup "" = none)
    (halike : ∀ id, refId step = .str id → id ≠ "" → PolicyDiff.Alike f a b id)
    (hfound : (pyGetTruthy a (refId step)).map (·.map f) = .ok found) :
    (pyGetTruthy b (refId (hydrate ref))).map (·.map f) = .ok found := by
  rw [refId_hydrate h]
  cases hr : refId step with
  | str id =>
    rw [hr, pyGetTruthy_str] at hfound
    by_cases hid : id = ""
    · subst hid
      rw [hempty] at hfound
      cases hfound
      rfl
    · have htrue : (Value.str id).truthy = true := by simpa [Value.truthy] using hid
      rw [if_pos htrue, pyGetTruthy_str, ← hfound]
      exact congrArg Except.ok (halike id hr hid).symm
  | list vs | dict vs =>
    rw [hr] at hfound
    cases hfound
  | null | bool b | int n | float q | inf b =>
    rw [hr] at hfound
    cases hfound
    split
    · rfl
    · rfl

variable {py : PyText} {search : RegexSearch} {fs : Formulas}
variable {ruleTree : Dict → Value → Except PyError Value} {vars : Dict}
variable {old new : Catalog}

/-- What the two catalogs have to have in common for a step. -/
structure SameFor (py : PyText) (search : RegexSearch) (fs : Formulas) (vars : Dict)
    (old new : Catalog) (step : Value) : Prop where
  outcome : Unnamed step → coreCandidate step = .ok (.str "review")
  rule : stepKind step = .rule → ∀ id, refId step = .str id → id ≠ "" →
    PolicyDiff.Alike (definitionTree py) old.rules new.rules id
  scorecard : stepKind step = .scorecard → ∀ id, refId step = .str id → id ≠ "" →
    PolicyDiff.Alike (evaluateScorecard py fs vars) old.scorecards new.scorecards id
  table : stepKind step = .decisionTable → ∀ id, refId step = .str id → id ≠ "" →
    PolicyDiff.Alike (fun t => evaluateDecisionTable py search t vars) old.decisionTables
      new.decisionTables id

theorem consult_ok {β : Type} {found : Except PyError (Option β)}
    {use : β → Except PyError Value} {v : Value} (h : consult found use = .ok v) :
    ∃ o, found = .ok o ∧ o.elim (.ok .null) use = .ok v := by
  cases found with
  | error e => cases h
  | ok o => exact ⟨o, rfl, h⟩

theorem reading_hydrate (h : PolicyDiff.stepRef step = .ok ref)
    (hnamed : old.rules.lookup "" = none ∧ old.scorecards.lookup "" = none ∧
      old.decisionTables.lookup "" = none) (hsame : SameFor py search fs vars old new step)
    {x : ℕ × Option Value}
    (hx : reading py (evaluators py search fs ruleTree vars) old step = some x) :
    reading py (evaluators py search fs ruleTree vars) new (hydrate ref) = some x := by
  obtain ⟨hd, -, -⟩ := stepRef_eq h
  have hd' : (hydrate ref).asDict.isSome = true := rfl
  have hkind := stepKind_hydrate h
  unfold reading at hx
  split at hx
  · rename_i v score hv hscore
    cases hx
    have hplain : stepKind step ≠ .scorecard → score = none ∧
        stepScore (evaluators py search fs ruleTree vars) new (hydrate ref) = .ok none := by
      intro hk
      rw [stepScore_none hk] at hscore
      exact ⟨(Except.ok.inj hscore).symm, stepScore_none (hkind ▸ hk)⟩
    -- nothing but the vote is left where the step is no scorecard
    have hvote : stepKind step ≠ .scorecard →
        PolicyDiff.vote py (evaluators py search fs ruleTree vars) new (hydrate ref) = .ok v →
        reading py (evaluators py search fs ruleTree vars) new (hydrate ref) =
          some (voteRank py v, score) := by
      intro hk hv'
      obtain ⟨rfl, hscore'⟩ := hplain hk
      rw [reading, hv', hscore']
    cases hk : stepKind step with
    | rule =>
      refine hvote (by rw [hk]; decide) ?_
      rw [vote_rule hd hk] at hv
      obtain ⟨o, hfound, helim⟩ := consult_ok hv
      rw [vote_rule hd' (hkind.trans hk), found_hydrate h hnamed.1 (hsame.rule hk) hfound]
      exact helim
    | scorecard =>
      rw [vote_scorecard hd hk] at hv
      obtain ⟨o, hfound, helim⟩ := consult_ok hv
      have hfound' := found_hydrate (b := new.scorecards) h hnamed.2.1 (fun id hid hne =>
        (hsame.scorecard hk id hid hne).scorecard search ruleTree) hfound
      rw [stepScore_scorecard hk, hfound] at hscore
      rw [reading, vote_scorecard hd' (hkind.trans hk), stepScore_scorecard (hkind.trans hk),
        hfound']
      rw [show consult (.ok o) _ = .ok v from helim,
        show Except.bind (.ok o) _ = .ok score from hscore]
    | decisionTable =>
      refine hvote (by rw [hk]; decide) ?_
      rw [vote_table hd hk] at hv
      obtain ⟨o, hfound, helim⟩ := consult_ok hv
      rw [vote_table hd' (hkind.trans hk), found_hydrate h hnamed.2.2
        (fun id hid hne => (hsame.table hk id hid hne).table) hfound]
      exact helim
    | outcome =>
      refine hvote (by rw [hk]; decide) ?_
      rw [vote_outcome hd hk] at hv
      rw [vote_outcome hd' (hkind.trans hk), coreCandidate, refId_hydrate h]
      by_cases ht : (refId step).truthy = true
      · rw [coreCandidate, if_pos ht] at hv
        rw [if_pos ht, if_pos ht, hv]
      · rw [if_neg ht, ← hv, hsame.outcome ⟨hk, by simpa using ht⟩]
        rfl
    | connector | action | reviewGate | transform | model | unhashable | loop | branch | workflow
    | monitor | other => grind [PolicyDiff.vote]
  · cases hx

end Hydrated

/-! ### Definitions that are written back -/

theorem orEmpty_isNull (v : Value) : (orEmpty v).isNull = false := by
  unfold orEmpty
  split
  · cases v <;> first | rfl | simp_all [Value.truthy]
  · rfl

theorem orEmpty_idem (v : Value) : orEmpty (orEmpty v) = orEmpty v := by
  unfold orEmpty
  grind

theorem lookup_toDicts {R : Type} (toDict : String → R → Value) (rows : List (String × R))
    (id : String) : (toDicts toDict rows).lookup id = (rows.lookup id).map (toDict id) := by
  induction rows with
  | nil => rfl
  | cons row rows ih => grind [toDicts]

section Definitions
variable {py : PyText} {search : RegexSearch} {fs : Formulas} {vars : Dict} {id : String}

theorem definitionTree_row (r : RuleRow) : definitionTree py (r.toDict id) =
    ((some r.tree).filter usableTree).elim (nodesToTree py (orEmpty r.nodes)) .ok := by
  have htree : (r.toDict id).field "tree" = some r.tree := rfl
  unfold definitionTree
  rw [htree]
  cases (some r.tree).filter usableTree with
  | none => rfl
  | some tree => rfl

theorem definitionTree_written {old new : RuleRow}
    (h : old.tree = .null → usableTree new.tree = false) :
    definitionTree py ((writeRule new (projected ruleKeys (old.toDict id))).toDict id) =
      definitionTree py (old.toDict id) := by
  have hnodes : (writeRule new (projected ruleKeys (old.toDict id))).nodes = orEmpty old.nodes := by
    show (if (orEmpty old.nodes).isNull then _ else orEmpty old.nodes) = _
    rw [orEmpty_isNull]
    rfl
  have htree : (writeRule new (projected ruleKeys (old.toDict id))).tree =
      if old.tree.isNull then new.tree else old.tree := rfl
  have hfilter : (some (writeRule new (projected ruleKeys (old.toDict id))).tree).filter
      usableTree = (some old.tree).filter usableTree := by
    rw [htree]
    by_cases hnull : old.tree = .null
    · grind [usableTree]
    · have : old.tree.isNull = false := by
        cases ht : old.tree <;> first | rfl | exact absurd ht hnull
      rw [this]
      rfl
  rw [definitionTree_row, definitionTree_row, hfilter, hnodes, orEmpty_idem]

theorem evaluateScorecard_written {old new : ScorecardRow} (hbase : old.baseScore = new.baseScore)
    (hmax : old.maxScore = new.maxScore) (hbins : orEmpty old.bins = orEmpty new.bins) :
    evaluateScorecard py fs vars
        ((writeScorecard new (projected scorecardKeys (old.toDict id))).toDict id) =
      evaluateScorecard py fs vars (old.toDict id) := by
  refine evaluateScorecard_congr py fs rfl fun key hkey => ?_
  have hrow : (writeScorecard new (projected scorecardKeys (old.toDict id))).toDict id =
      .dict [("id", .str id), ("name", (writeScorecard new (projected scorecardKeys
        (old.toDict id))).name), ("base_score", old.baseScore), ("max_score", old.maxScore),
        ("bins", orEmpty old.bins), ("version", .int (new.version + 1))] := by
    rw [hbase, hmax, hbins, ← orEmpty_idem new.bins]
    rfl
  rw [hrow]
  revert key
  simp [scorecardFields, ScorecardRow.toDict, Value.field, List.lookup_cons]

theorem evaluateDecisionTable_written {old new : TableRow}
    (hinputs : orEmpty old.inputs = orEmpty new.inputs)
    (houtputs : orEmpty old.outputs = orEmpty new.outputs)
    (hdefault : orNone old.defaultRow = orNone new.defaultRow) :
    evaluateDecisionTable py search
        ((writeTable new (projected tableKeys (old.toDict id))).toDict id) vars =
      evaluateDecisionTable py search (old.toDict id) vars := by
  refine evaluateDecisionTable_congr vars rfl rfl rfl ?_ fun key hkey => ?_
  · show orEmpty (orEmpty old.rows) = orEmpty old.rows
    exact orEmpty_idem _
  · simp only [tableFields, List.mem_cons, List.not_mem_nil, or_false] at hkey
    obtain rfl | rfl | rfl := hkey
    · exact congrArg some hinputs.symm
    · exact congrArg some houtputs.symm
    · exact congrArg some hdefault.symm

end Definitions

/-! ### What a rollback takes back -/

/-- The catalog of a store, as a decision reads it. -/
def Store.catalog (s : Store) : Catalog :=
  ⟨toDicts RuleRow.toDict s.rules, toDicts ScorecardRow.toDict s.scorecards,
    toDicts TableRow.toDict s.decisionTables⟩

theorem tenant_eq {s : Store} {policyId : String} {t : Tenant} (h : s.tenant policyId = some t) :
    ∃ row, s.policies.lookup policyId = some row ∧ t = ⟨row.toDict policyId, s.catalog⟩ := by
  obtain ⟨row, hrow, ht⟩ := Option.map_eq_some_iff.1 h
  exact ⟨row, hrow, ht.symm⟩

/-- The edits, between the store before and that now, that a rollback takes back: an entity
    the policy refers to is still there, or still missing; a rule without a tree has none
    now; what a snapshot leaves out is as it was. -/
structure Restorable (before now : Store) (policyId : String) (t : Tenant) : Prop where
  named : before.rules.lookup "" = none ∧ before.scorecards.lookup "" = none ∧
    before.decisionTables.lookup "" = none
  empty : t.steps = [] → ∀ row, now.policies.lookup policyId = some row →
    orEmpty row.steps = .list []
  outcomes : ∀ step ∈ t.steps, Unnamed step → coreCandidate step = .ok (.str "review")
  rules : ∀ id, Refers t .rule id → id ≠ "" →
    Option.Rel (fun old new => old.tree = .null → usableTree new.tree = false)
      (before.rules.lookup id) (now.rules.lookup id)
  scorecards : ∀ id, Refers t .scorecard id → id ≠ "" →
    Option.Rel (fun old new => old.baseScore = new.baseScore ∧ old.maxScore = new.maxScore ∧
      orEmpty old.bins = orEmpty new.bins) (before.scorecards.lookup id) (now.scorecards.lookup id)
  tables : ∀ id, Refers t .decisionTable id → id ≠ "" →
    Option.Rel (fun old new => orEmpty old.inputs = orEmpty new.inputs ∧
      orEmpty old.outputs = orEmpty new.outputs ∧
      orNone old.defaultRow = orNone new.defaultRow)
      (before.decisionTables.lookup id) (now.decisionTables.lookup id)

section Decisions
variable {py : PyText} {search : RegexSearch} {fs : Formulas}
variable {ruleTree : Dict → Value → Except PyError Value}
variable {validate : Value → Except PyError (List String)}
variable {before now : Store} {policyId : String} {t : Tenant} {snapshot : Snapshot}

theorem alike_restored {R β : Type} {toDict : String → R → Value} {keys : List String}
    {update : R → Value → R} {f : Value → β} {old new : List (String × R)} {entries : Dict}
    {refs : List Value} {id : String} {related : R → R → Prop}
    (htrue : ∀ id r, (toDict id r).truthy = true)
    (hentries : definitions (toDicts toDict old) keys refs = .ok entries)
    (hid : .str id ∈ refs) (hrel : Option.Rel related (old.lookup id) (new.lookup id))
    (hread : ∀ a b, related a b →
      f (toDict id (update b (projected keys (toDict id a)))) = f (toDict id a)) :
    PolicyDiff.Alike f (toDicts toDict old)
      (toDicts toDict (restoredRows update entries new)) id := by
  have hfilter : ∀ o : Option R, (o.map (toDict id)).filter Value.truthy = o.map (toDict id) := by
    intro o
    cases o with
    | none => rfl
    | some r => simp [Option.filter_some, htrue]
  obtain ⟨hlookup, -⟩ := definitions_lookup hentries hid
  rw [lookup_toDicts, hfilter] at hlookup
  unfold PolicyDiff.Alike
  rw [lookup_toDicts, lookup_toDicts, hfilter, hfilter, lookup_restored update
    (definitions_nodup hentries), hlookup]
  cases ho : old.lookup id with
  | none =>
    cases hn : new.lookup id with
    | none => rfl
    | some b =>
      rw [ho, hn] at hrel
      cases hrel
  | some a =>
    cases hn : new.lookup id with
    | none =>
      rw [ho, hn] at hrel
      cases hrel
    | some b => simp_all

theorem listed_of_snapshot (ht : before.tenant policyId = some t)
    (hsnap : policySnapshot t = .ok snapshot) :
    t.policy.field "steps" = some (.list t.steps) := by
  obtain ⟨row, -, rfl⟩ := tenant_eq ht
  have hfield : (row.toDict policyId).field "steps" = some (orEmpty row.steps) := rfl
  have hsteps : Tenant.steps ⟨row.toDict policyId, before.catalog⟩ =
      ((some (orEmpty row.steps)).bind Value.asList).getD [] := rfl
  obtain ⟨steps, hiterate, hsnap⟩ := bind_eq_ok.1 (show (iterate (some (Value.orElse
    (some (orEmpty row.steps)) (.list []))) >>= _) = _ from hsnap)
  obtain ⟨refs, hrefs, -⟩ := bind_eq_ok.1 hsnap
  -- what is no list yields texts, which are no steps
  have htexts : ∀ texts : List String, steps = texts.map Value.str → texts = [] := by
    rintro texts rfl
    cases texts with
    | nil => rfl
    | cons text texts =>
      obtain ⟨r, -, hr⟩ := (mapM_mem hrefs).1 (.str text) List.mem_cons_self
      cases hr
  have hlist : ∃ vs, orEmpty row.steps = .list vs := by
    by_cases htrue : row.steps.truthy = true
    · have hsame : orEmpty row.steps = row.steps := if_pos htrue
      rw [hsame, Value.orElse, if_pos htrue] at hiterate
      rw [hsame]
      cases hv : row.steps with
      | list vs => exact ⟨vs, rfl⟩
      | str s =>
        rw [hv] at hiterate htrue
        have hnil := htexts (s.toList.map fun c => String.ofList [c])
          (by rw [List.map_map]; exact (Except.ok.inj hiterate).symm)
        have hs : s = "" := String.toList_eq_nil_iff.1 (List.map_eq_nil_iff.1 hnil)
        subst hs
        cases htrue
      | dict kvs =>
        rw [hv] at hiterate htrue
        have hnil := htexts (kvs.map Prod.fst)
          (by rw [List.map_map]; exact (Except.ok.inj hiterate).symm)
        rw [List.map_eq_nil_iff.1 hnil] at htrue
        cases htrue
      | null | bool _ | int _ | float _ | inf _ =>
        rw [hv] at hiterate
        cases hiterate
    · exact ⟨[], if_neg htrue⟩
  obtain ⟨vs, hvs⟩ := hlist
  rw [hfield, hsteps, hvs]
  rfl

theorem decide_row (row : PolicyRow) (catalog : Catalog) (vars : Dict) :
    decide py search fs ruleTree validate ⟨row.toDict policyId, catalog⟩ vars = (do
      let errors ← validate .null
      if errors.isEmpty then
        let steps ← iterate (some (orEmpty row.steps))
        let (outcome, score) ← steps.foldlM
          (decideStep py (evaluators py search fs ruleTree vars) catalog) ("pending", .null)
        .ok (settle outcome, score)
      else .ok ("reject", .null)) := rfl

theorem steps_written (row : PolicyRow) (snapshot : Snapshot)
    (hempty : snapshot.steps = [] → orEmpty row.steps = .list []) :
    orEmpty (row.update (policyPatch snapshot)).steps = .list (snapshot.steps.map hydrate) := by
  have hpatch : (policyPatch snapshot).lookup "steps" =
      if snapshot.steps.isEmpty then none else some (.list (snapshot.steps.map hydrate)) := by
    unfold policyPatch
    cases snapshot.name.isNull <;> cases snapshot.defaultOutcome.isNull <;>
      cases snapshot.steps.isEmpty <;> rfl
  have hsteps : (row.update (policyPatch snapshot)).steps =
      keep (policyPatch snapshot) "steps" (orEmpty row.steps) := rfl
  rw [hsteps, keep, hpatch]
  cases hs : snapshot.steps with
  | nil =>
    show orEmpty (orEmpty row.steps) = _
    rw [hempty hs]
    rfl
  | cons ref refs => rfl

variable {vars : Dict} {r : String × Value} {row : PolicyRow}

theorem loop_hydrate {old new : Catalog} {steps : List Value} {refs : List StepRef}
    (hrefs : steps.mapM PolicyDiff.stepRef = .ok refs)
    (hnamed : old.rules.lookup "" = none ∧ old.scorecards.lookup "" = none ∧
      old.decisionTables.lookup "" = none)
    (hsame : ∀ step ∈ steps, SameFor py search fs vars old new step)
    (h : steps.foldlM (decideStep py (evaluators py search fs ruleTree vars) old)
      ("pending", .null) = .ok r) :
    (refs.map hydrate).foldlM (decideStep py (evaluators py search fs ruleTree vars) new)
      ("pending", .null) = .ok r := by
  have hall := mapM_eq_ok.1 hrefs
  have hreadings : ∀ step ∈ steps, ∃ x,
      reading py (evaluators py search fs ruleTree vars) old step = some x := by
    rcases decide_spec py (evaluators py search fs ruleTree vars) old (Or.inl rfl) .null steps with
      ⟨-, e, he⟩ | ⟨o, -, hreach⟩
    · rw [he] at h
      cases h
    · exact fun step hstep => (hreach.votes step hstep).imp fun _ hx => hx.1
  have hsteps : ∀ step ∈ steps, ∀ ref, PolicyDiff.stepRef step = .ok ref →
      reading py (evaluators py search fs ruleTree vars) old step =
        reading py (evaluators py search fs ruleTree vars) new (hydrate ref) := by
    intro step hstep ref href
    obtain ⟨x, hx⟩ := hreadings step hstep
    rw [hx, reading_hydrate href hnamed (hsame step hstep) hx]
  have hlast : ∀ score, lastScore py (evaluators py search fs ruleTree vars) old score steps =
      lastScore py (evaluators py search fs ruleTree vars) new score (refs.map hydrate) := by
    clear h hrefs hreadings hsame
    induction hall with
    | nil => intro score; rfl
    | @cons step ref steps refs href _ ih =>
      intro score
      show lastScore _ _ _ (((reading _ _ _ step).bind Prod.snd).getD score) steps = _
      rw [hsteps step List.mem_cons_self ref href,
        ih fun st hst => hsteps st (List.mem_cons_of_mem _ hst)]
      rfl
  have hcover : ∀ step ∈ steps, ∃ step' ∈ refs.map hydrate,
      reading py (evaluators py search fs ruleTree vars) old step =
        reading py (evaluators py search fs ruleTree vars) new step' := by
    intro step hstep
    obtain ⟨ref, hmem, href⟩ := (mapM_mem hrefs).1 step hstep
    exact ⟨hydrate ref, List.mem_map_of_mem hmem, hsteps step hstep ref href⟩
  have hcover' : ∀ step' ∈ refs.map hydrate, ∃ step ∈ steps,
      reading py (evaluators py search fs ruleTree vars) new step' =
        reading py (evaluators py search fs ruleTree vars) old step := by
    intro step' hstep'
    obtain ⟨ref, hmem, rfl⟩ := List.mem_map.1 hstep'
    obtain ⟨step, hstep, href⟩ := (mapM_mem hrefs).2 ref hmem
    exact ⟨step, hstep, (hsteps step hstep ref href).symm⟩
  have hcongr := decide_congr py _ hcover hcover' fun _ _ => hlast .null
  rw [h] at hcongr
  exact toOption_eq_some.1 hcongr.symm

theorem sameFor_restored (ht : before.tenant policyId = some t)
    (hsnap : policySnapshot t = .ok snapshot) (hrest : Restorable before now policyId t)
    (vars : Dict) {step : Value} (hstep : step ∈ t.steps) :
    SameFor py search fs vars before.catalog (restored now policyId snapshot).catalog step := by
  have hlisted := listed_of_snapshot ht hsnap
  obtain ⟨-, hrefs, hrules, hcards, htables⟩ := policySnapshot_ok hsnap (by rw [hlisted]; rfl)
  obtain ⟨row, -, rfl⟩ := tenant_eq ht
  rw [restored_eq]
  refine ⟨hrest.outcomes step hstep, ?_, ?_, ?_⟩
  · intro hk id hid hne
    have hrefers : Refers _ .rule id := ⟨step, hstep, hk, hid⟩
    exact alike_restored (fun _ _ => rfl) hrules
      (referenced_mem hrefs (by simp [stepTypes]) (by decide) hrefers hne)
      (hrest.rules id hrefers hne) fun a b hab => definitionTree_written hab
  · intro hk id hid hne
    have hrefers : Refers _ .scorecard id := ⟨step, hstep, hk, hid⟩
    exact alike_restored (fun _ _ => rfl) hcards
      (referenced_mem hrefs (by simp [stepTypes]) (by decide) hrefers hne)
      (hrest.scorecards id hrefers hne) fun a b hab =>
        evaluateScorecard_written hab.1 hab.2.1 hab.2.2
  · intro hk id hid hne
    have hrefers : Refers _ .decisionTable id := ⟨step, hstep, hk, hid⟩
    exact alike_restored (fun _ _ => rfl) htables
      (referenced_mem hrefs (by simp [stepTypes]) (by decide) hrefers hne)
      (hrest.tables id hrefers hne) fun a b hab =>
        evaluateDecisionTable_written hab.1 hab.2.1 hab.2.2

theorem tenant_restored (hrow : now.policies.lookup policyId = some row) :
    (restored now policyId snapshot).tenant policyId =
      some ⟨(row.update (policyPatch snapshot)).toDict policyId,
        (restored now policyId snapshot).catalog⟩ := by
  have hlookup : (restored now policyId snapshot).policies.lookup policyId =
      some (row.update (policyPatch snapshot)) := by
    rw [restored_eq, lookup_modifyRow, if_pos rfl, hrow]
    rfl
  rw [Store.tenant, hlookup]
  rfl

theorem restored_decides (ht : before.tenant policyId = some t)
    (hsnap : policySnapshot t = .ok snapshot)
    (hrow : now.policies.lookup policyId = some row) (hrest : Restorable before now policyId t)

    (h : decide py search fs ruleTree validate t vars = .ok r) :
    decide py search fs ruleTree validate
      ⟨(row.update (policyPatch snapshot)).toDict policyId,
        (restored now policyId snapshot).catalog⟩ vars = .ok r := by
  have hlisted := listed_of_snapshot ht hsnap
  obtain ⟨-, hrefs, -, -, -⟩ := policySnapshot_ok hsnap (by rw [hlisted]; rfl)
  have hsame : ∀ step ∈ t.steps, SameFor py search fs vars before.catalog
      (restored now policyId snapshot).catalog step :=
    fun step hstep => sameFor_restored ht hsnap hrest vars hstep
  have hempty : snapshot.steps = [] → orEmpty row.steps = .list [] := by
    intro hnil
    have hall := mapM_eq_ok.1 hrefs
    rw [hnil] at hall
    exact hrest.empty (List.forall₂_nil_right_iff.1 hall) row hrow
  have hnamed : ∀ {R : Type} (toDict : String → R → Value) {rows : List (String × R)},
      rows.lookup "" = none → (toDicts toDict rows).lookup "" = none := by
    intro R toDict rows hnone
    rw [lookup_toDicts, hnone]
    rfl
  have hunnamed := hrest.named
  obtain ⟨old, -, rfl⟩ := tenant_eq ht
  have hold : orEmpty old.steps = .list (Tenant.steps ⟨old.toDict policyId, before.catalog⟩) :=
    Option.some.inj hlisted
  rw [decide_row, hold] at h
  rw [decide_row, steps_written row snapshot hempty]
  obtain ⟨errors, herrors, h⟩ := bind_eq_ok.1 h
  refine bind_eq_ok.2 ⟨errors, herrors, ?_⟩
  cases herr : errors.isEmpty with
  | false =>
    rw [herr] at h
    exact h
  | true =>
    rw [herr] at h
    obtain ⟨steps, hiterate, h⟩ := bind_eq_ok.1 h
    cases hiterate
    obtain ⟨last, hloop, h⟩ := bind_eq_ok.1 h
    refine bind_eq_ok.2 ⟨_, rfl, bind_eq_ok.2 ⟨last, ?_, h⟩⟩
    exact loop_hydrate hrefs
      ⟨hnamed _ hunnamed.1, hnamed _ hunnamed.2.1, hnamed _ hunnamed.2.2⟩ hsame hloop

end Decisions

/-! ### A release, and edits since -/

def snapshotOf (s : Store) (policyId : String) : Option Snapshot :=
  (s.tenant policyId).bind fun t => (policySnapshot t).toOption

/-- The promotion of the policy, in the state of the store then. -/
def release (s : Store) : Promotion :=
  ⟨1, "policy", "p", "uat", "prod", "ann", "", snapshotOf s "p"⟩

def plainRule (outcome : String) : RuleRow :=
  ⟨.str "Gate", .list [.dict [("type", .str outcome)]], .null, 1⟩

def gated (steps : List Value) (outcome : String) : Store where
  policies := [("p", ⟨.str "Claims", .list steps, .null, "prod", 1⟩)]
  rules := [("gate", plainRule outcome)]
  scorecards := []
  decisionTables := []
  promotions := []

def ruleStep (id : String) : Value := .dict [("type", .str "rule"), ("ref_id", .str id)]

def scored (base : ℤ) : Store where
  policies := [("p", ⟨.str "Claims", .list [scorecardStep "sc"], .null, "prod", 1⟩)]
  rules := []
  scorecards := [("sc", ⟨.str "Risk", .int base, .int 900, .list [], 1⟩)]
  decisionTables := []
  promotions := []

end RuleMind.Rollback
