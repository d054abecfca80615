/-
  Import of a workspace: `replace_all` of `app/storage.py`, with the creators that it calls.

  One transaction deletes ten tables of the tenant, each entity is created in one of its own, and
  the settings are written last.  What a column makes of a value that is no plain text belongs to
  the database (`Database`).
-/
import RuleMind.SettingsWrites

namespace RuleMind.Workspaces

open SettingsWrites

/-! ### Tables -/

inductive Kind
  | connector
  | variable
  | rule
  | scorecard
  | policy
  deriving DecidableEq

structure ConnectorRow where
  name : String
  icon : Option String
  color : Option String
  description : Option String
  schemaFields : Value
  samplePayload : Value
  isActive : Bool
  /-- What `encrypted_config` decrypts to. -/
  config : Value

structure VariableRow where
  name : String
  category : String
  sourceId : String
  code : String
  description : Option String
  status : String
  lastTestResult : Value
  version : ℤ

structure RuleRow where
  name : String
  nodes : Value
  tree : Value
  ruleFormat : String
  expression : Option String
  status : String
  lastTestResult : Value
  version : ℤ

structure ScorecardRow where
  name : String
  baseScore : ℤ
  maxScore : ℤ
  bins : Value
  status : String
  lastTestResult : Value
  version : ℤ

structure PolicyRow where
  name : String
  trigger : Value
  steps : Value
  defaultOutcome : Option String
  status : String
  lifecycleStatus : String
  lastTestResult : Value
  version : ℤ

abbrev Kind.Row : Kind → Type
  | .connector => ConnectorRow
  | .variable => VariableRow
  | .rule => RuleRow
  | .scorecard => ScorecardRow
  | .policy => PolicyRow

/-- A stored entity; no two rows have had the same `pk`. -/
structure Entity (k : Kind) where
  pk : ℕ
  publicId : String
  row : k.Row

structure History where
  entityType : String
  entityId : String
  version : ℤ
  snapshot : Dict

structure AuditEvent where
  eventType : String
  entityType : String
  entityId : String
  version : Option ℤ

structure Workspace where
  entities : (k : Kind) → List (Entity k)
  histories : List History
  audits : List AuditEvent
  decisions : List Value
  promotions : List Value
  errors : List Value
  settings : Option Setting
  nextPk : ℕ
  fresh : ∀ k, ∀ e ∈ entities k, e.pk < nextPk

/-- What belongs to the database: what a text column of a width stores of a value that is not
    `NULL` and whether an integer column takes a number, each refusing some; and whether a best
    effort audit write goes through. -/
structure Database where
  py : PyText
  text : Option ℕ → Value → Option String
  integer : ℤ → Bool
  audited : Kind → String → Bool

namespace Database
variable (db : Database)

/-- A text column that may not be `NULL`. -/
def required (width : Option ℕ) : Value → Option String
  | .null => none
  | v => db.text width v

def nullable (width : Option ℕ) : Value → Option (Option String)
  | .null => some none
  | v => (db.text width v).map some

/-- `int(value)`, stored. -/
def number (v : Value) : Option ℤ := ((pyIntOf db.py v).toOption).filter db.integer

end Database

/-- `payload.get(key, default)`. -/
def given (p : Dict) (key : String) (default : Value) : Value := (p.lookup key).getD default

/-! ### Creators -/

section Creators
variable (db : Database)

/-- `payload["id"]` as the column stores it. -/
def publicId (p : Dict) : Option String := (p.lookup "id").bind (db.required (some 128))

def name (p : Dict) : Option String := (p.lookup "name").bind (db.required (some 255))

def status (p : Dict) : Option String := db.required (some 16) (given p "status" (.str "dev"))

def version (p : Dict) : Option ℤ := db.number (given p "version" (.int 1))

def connectorRow (p : Dict) : Option ConnectorRow := do
  let name ← name db p
  let icon ← db.nullable (some 128) (given p "icon" .null)
  let color ← db.nullable (some 32) (given p "color" .null)
  let description ← db.nullable none (given p "description" .null)
  pure {
    name := name, icon := icon, color := color, description := description
    schemaFields := given p "schema_paths" (.list [])
    samplePayload := given p "sample_payload" (.dict [])
    isActive := (given p "is_active" (.bool true)).truthy
    config := given p "config" (.dict []) }

/-- The values of a patch that are not `None`. -/
def patched (p : Dict) (key : String) : Option Value := (p.lookup key).filter (!·.isNull)

def updateConnector (row : ConnectorRow) (p : Dict) : Option ConnectorRow := do
  let name ← (patched p "name").elim (some row.name) (db.required (some 255))
  let icon ← (patched p "icon").elim (some row.icon) (db.nullable (some 128))
  let color ← (patched p "color").elim (some row.color) (db.nullable (some 32))
  let description ← (patched p "description").elim (some row.description) (db.nullable none)
  pure {
    name := name, icon := icon, color := color, description := description
    schemaFields := (patched p "schema_paths").getD
      (Value.orElse (some row.schemaFields) (.list []))
    samplePayload := (patched p "sample_payload").getD (orEmpty row.samplePayload)
    isActive := (patched p "is_active").elim row.isActive Value.truthy
    config := (patched p "config").getD row.config }

def variableRow (p : Dict) : Option VariableRow := do
  let name ← name db p
  let category ← (p.lookup "category").bind (db.required (some 128))
  let sourceId ← (p.lookup "source_id").bind (db.required (some 128))
  let code ← (p.lookup "code").bind (db.required none)
  let description ← db.nullable none (given p "description" .null)
  let status ← status db p
  let version ← version db p
  pure {
    name := name, category := category, sourceId := sourceId, code := code
    description := description, status := status, version := version
    lastTestResult := given p "last_test_result" .null }

def ruleRow (p : Dict) : Option RuleRow := do
  let name ← name db p
  let ruleFormat ← db.required (some 16) (given p "rule_format" (.str "v1"))
  let expression ← db.nullable none (given p "expression" .null)
  let status ← status db p
  let version ← version db p
  pure {
    name := name, ruleFormat := ruleFormat, expression := expression, status := status
    version := version, nodes := given p "nodes" .null, tree := given p "tree" .null
    lastTestResult := given p "last_test_result" .null }

def scorecardRow (p : Dict) : Option ScorecardRow := do
  let name ← name db p
  let baseScore ← db.number (given p "base_score" (.int 300))
  let maxScore ← db.number (given p "max_score" (.int 900))
  let status ← status db p
  let version ← version db p
  pure {
    name := name, baseScore := baseScore, maxScore := maxScore, status := status
    version := version, bins := given p "bins" (.list [])
    lastTestResult := given p "last_test_result" .null }

def policyRow (p : Dict) : Option PolicyRow := do
  let name ← name db p
  let defaultOutcome ← db.nullable (some 16) (given p "defaultOutcome" .null)
  let status ← status db p
  let version ← version db p
  pure {
    name := name, defaultOutcome := defaultOutcome, status := status, version := version
    trigger := given p "trigger" .null, steps := given p "steps" (.list [])
    lifecycleStatus := "draft", lastTestResult := given p "last_test_result" .null }

def newRow : (k : Kind) → Dict → Option k.Row
  | .connector => connectorRow db
  | .variable => variableRow db
  | .rule => ruleRow db
  | .scorecard => scorecardRow db
  | .policy => policyRow db

/-- An entity that is there already is updated if it is a connector; of the others the unique
    constraint is violated. -/
def againRow : (k : Kind) → k.Row → Dict → Option k.Row
  | .connector, row, p => updateConnector db row p
  | _, _, _ => none

end Creators

def Kind.entityType : Kind → String
  | .connector => "connector"
  | .variable => "variable"
  | .rule => "rule"
  | .scorecard => "scorecard"
  | .policy => "policy"

def Kind.version : (k : Kind) → k.Row → Option ℤ
  | .connector, _ => none
  | .variable, row => some (VariableRow.version row)
  | .rule, row => some (RuleRow.version row)
  | .scorecard, row => some (ScorecardRow.version row)
  | .policy, row => some (PolicyRow.version row)

def Kind.audits : Kind → Bool
  | .variable | .rule | .scorecard => true
  | .connector | .policy => false

/-! ### `replace_all` -/

section Import
variable (db : Database)

def Workspace.stored (s : Workspace) (k : Kind) (id : String) : Option (Entity k) :=
  (s.entities k).find? (·.publicId = id)

/-- The entity, its history row and its audit event. -/
def Workspace.insert (s : Workspace) (k : Kind) (id : String) (row : k.Row) (p : Dict) :
    Workspace :=
  { s with
    entities := Function.update s.entities k (s.entities k ++ [⟨s.nextPk, id, row⟩])
    histories := s.histories ++ ((k.version row).map fun v => ⟨k.entityType, id, v, p⟩).toList
    audits := s.audits ++ (if k.audits && db.audited k id then
      [⟨k.entityType ++ "_created", k.entityType, id, k.version row⟩] else [])
    nextPk := s.nextPk + 1
    fresh := by
      intro k' e he
      by_cases hk : k' = k
      · subst hk
        rw [Function.update_self] at he
        rcases List.mem_append.1 he with he | he
        · exact Nat.lt_succ_of_lt (s.fresh k' e he)
        simp_all
      · rw [Function.update_of_ne hk] at he
        exact Nat.lt_succ_of_lt (s.fresh k' e he) }

def Workspace.rewrite (s : Workspace) (k : Kind) (id : String) (row : k.Row) : Workspace :=
  { s with
    entities := Function.update s.entities k
      ((s.entities k).map fun e => if e.publicId = id then { e with row := row } else e)
    fresh := by
      intro k' e he
      by_cases hk : k' = k
      · subst hk
        rw [Function.update_self] at he
        obtain ⟨e', he', rfl⟩ := List.mem_map.1 he
        have hlt := s.fresh k' e' he'
        split
        · exact hlt
        · exact hlt
      · rw [Function.update_of_ne hk] at he
        exact s.fresh k' e he }

/-- One entity of the document; nothing where an exception rolls the transaction back. -/
def importEntity (k : Kind) (p : Dict) (s : Workspace) : Option Workspace := do
  let id ← publicId db p
  match s.stored k id with
  | some e => (againRow db k e.row p).map fun row => s.rewrite k id row
  | none => (newRow db k p).map fun row => s.insert db k id row p

/-- The patch that `update_settings` makes of the settings of a document. -/
def settingsPatch (d : Dict) : Option Patch := do
  let apiBaseUrl ← (patched d "api_base_url").elim (some none) fun v =>
    (db.required (some 255) v).map some
  let themeMode ← (patched d "theme_mode").elim (some none) fun v =>
    (db.required (some 16) v).map some
  -- `normalize_retention_months` answers with `None` where `int` raises, but for an infinity
  let months ← (patched d "audit_retention_months").elim (some none) fun v =>
    match pyIntOf db.py v with
    | .ok n => some (some n)
    | .error .overflowError => none
    | .error _ => some (some 0)
  -- the days are not read where months are in use
  let days ← if (months.bind normalizeRetentionMonths).isSome then some none
    else (patched d "audit_retention_days").elim (some none) fun v => (db.number v).map some
  pure {
    apiBaseUrl := apiBaseUrl, themeMode := themeMode
    auditRetentionMonths := months, auditRetentionDays := days
    authConfig := patched d "auth_config", engineConfig := patched d "engine_config"
    sourceDefaults := patched d "source_defaults", branding := patched d "branding" }

def updateSettings (windowDays : ℤ → ℤ) (d : Dict) (s : Workspace) : Option Workspace :=
  (settingsPatch db d).map fun p =>
    let current := getSettings s.settings
    { s with settings := some (write windowDays (s.settings.getD DEFAULT_SETTINGS) current p) }

/-- `ImportRequest`. -/
structure Document where
  connectors : List Dict
  vars : List Dict
  rules : List Dict
  scorecards : List Dict
  policies : List Dict
  settings : Dict

/-- The entities of a document in the order of the loops. -/
def Document.entities (d : Document) : List (Kind × Dict) :=
  d.connectors.map (Kind.connector, ·) ++ d.vars.map (Kind.variable, ·) ++
    d.rules.map (Kind.rule, ·) ++ d.scorecards.map (Kind.scorecard, ·) ++
    d.policies.map (Kind.policy, ·)

/-- `delete(model).where(model.tenant_id == resolved)` for the ten models. -/
def Workspace.deleteAll (s : Workspace) : Workspace :=
  { s with
    entities := fun _ => []
    histories := []
    audits := []
    decisions := []
    promotions := []
    errors := []
    fresh := fun _ _ he => by cases he }

/-- Transactions one after the other; whether one of them raises, and what is then stored. -/
def runAll : List (Workspace → Option Workspace) → Workspace → Bool × Workspace
  | [], s => (false, s)
  | t :: ts, s =>
    match t s with
    | none => (true, s)
    | some s' => runAll ts s'

/-- `replace_all`: whether it raises, and what it leaves. -/
def replaceAll (windowDays : ℤ → ℤ) (d : Document) (s : Workspace) : Bool × Workspace :=
  runAll (d.entities.map (fun kp => importEntity db kp.1 kp.2) ++
    [updateSettings db windowDays d.settings]) s.deleteAll

end Import

/-- The tables that an import which raises should leave alone. -/
def SameTables (s s' : Workspace) : Prop :=
  (∀ k, s'.entities k = s.entities k) ∧ s'.histories = s.histories ∧
    s'.decisions = s.decisions ∧ s'.audits = s.audits

def Workspace.Bare (s : Workspace) : Prop :=
  (∀ k, s.entities k = []) ∧ s.histories = [] ∧ s.decisions = [] ∧ s.audits = []

/-- The rows of what has been created, by public id. -/
abbrev Known : Type := (k : Kind) → List (String × k.Row)

/-- The row that an entity is to have, after those of a document that came before it. -/
def entityRow (db : Database) (known : Known) (k : Kind) (id : String) (p : Dict) : Option k.Row :=
  match (known k).lookup id with
  | some row => againRow db k row p
  | none => newRow db k p

/-- Every entity can be created, or is a connector that can be updated. -/
def Importable (db : Database) : Known → List (Kind × Dict) → Prop
  | _, [] => True
  | known, (k, p) :: rest => ∃ id row, publicId db p = some id ∧
      entityRow db known k id p = some row ∧
      Importable db (Function.update known k ((id, row) :: known k)) rest

/-- Every entity and the settings of a document can be written. -/
def Document.Importable (db : Database) (d : Document) : Prop :=
  Workspaces.Importable db (fun _ => []) d.entities ∧ settingsPatch db d.settings ≠ none

/-- The first thing that a document has cannot be written. -/
def Document.StartsRefused (db : Database) (d : Document) : Prop :=
  match d.entities with
  | (k, p) :: _ => publicId db p = none ∨ newRow db k p = none
  | [] => settingsPatch db d.settings = none

/-! ### One transaction -/

variable {db : Database} {windowDays : ℤ → ℤ} {s s' : Workspace} {k : Kind} {p : Dict}
  {known : Known} {n : ℕ}

/-- The stored entities are those of the document so far. -/
def Agree (known : Known) (s : Workspace) : Prop :=
  ∀ k id, (s.stored k id).map Entity.row = (known k).lookup id

/-- There is an entity that was not there when `n` was the next key. -/
def New (n : ℕ) (s : Workspace) : Prop := ∃ k, ∃ e ∈ s.entities k, n ≤ e.pk

/-- A created entity is stored, or its row is written. -/
def Workspace.put (db : Database) (s : Workspace) (k : Kind) (id : String) (row : k.Row)
    (p : Dict) : Workspace :=
  if (s.stored k id).isSome then s.rewrite k id row else s.insert db k id row p

theorem importEntity_eq (h : Agree known s) : importEntity db k p s =
    (publicId db p).bind fun id => (entityRow db known k id p).map fun row =>
      s.put db k id row p := by
  rw [importEntity]
  cases publicId db p with
  | none => rfl
  | some id =>
    show (match s.stored k id with
      | some e => (againRow db k e.row p).map fun row => s.rewrite k id row
      | none => (newRow db k p).map fun row => s.insert db k id row p) = _
    have hknown := h k id
    grind [entityRow, Workspace.put]

theorem stored_name {id : String} {e : Entity k} (h : s.stored k id = some e) :
    e.publicId = id := by
  have hname := List.find?_some h
  simpa using hname

theorem stored_of_ne {l : List (Entity k)} {k' : Kind} (hk : k' ≠ k)
    (hs : s'.entities = Function.update s.entities k l) (id : String) :
    s'.stored k' id = s.stored k' id := by
  rw [Workspace.stored, hs, Function.update_of_ne hk, Workspace.stored]

theorem lookup_cons_self (id id' : String) (row : k.Row) (l : List (String × k.Row)) :
    ((id, row) :: l).lookup id' = if id' = id then some row else l.lookup id' := by grind

theorem Agree.put (h : Agree known s) (id : String) (row : k.Row) (p : Dict) :
    Agree (Function.update known k ((id, row) :: known k)) (s.put db k id row p) := by
  intro k' id'
  rw [Workspace.put]
  by_cases hk : k' = k
  · subst hk
    rw [Function.update_self, lookup_cons_self, ← h k' id']
    cases hold : s.stored k' id with
    | none =>
      rw [if_neg (by simp)]
      rw [Workspace.stored, Workspace.insert]
      simp only [Function.update_self, List.find?_append]
      by_cases hid : id' = id
      · subst hid
        rw [show List.find? _ (s.entities k') = s.stored k' id' from rfl, hold]
        simp
      · rw [if_neg hid, show List.find? _ (s.entities k') = s.stored k' id' from rfl,
          List.find?_cons, show decide (id = id') = false from decide_eq_false (Ne.symm hid)]
        simp
    | some e =>
      rw [if_pos (by simp), Workspace.stored, Workspace.rewrite]
      simp only [Function.update_self]
      rw [List.find?_map, Option.map_map]
      have hsame : ((fun e : Entity k' => decide (e.publicId = id')) ∘ fun e =>
          if e.publicId = id then { e with row := row } else e) =
          fun e => decide (e.publicId = id') := by
        funext e
        simp only [Function.comp]
        split
        · rfl
        · rfl
      rw [hsame, show List.find? _ (s.entities k') = s.stored k' id' from rfl]
      by_cases hid : id' = id
      · subst hid
        have hname : e.publicId = id' := stored_name hold
        rw [hold, if_pos rfl]
        simp [hname]
      · rw [if_neg hid]
        cases hfound : s.stored k' id' with
        | none => rfl
        | some e' => grind [stored_name]
  · rw [Function.update_of_ne hk, ← h k' id']
    congr 1
    split
    · exact stored_of_ne hk rfl id'
    · exact stored_of_ne hk rfl id'

theorem New.put (h : New n s) (id : String) (row : k.Row) (p : Dict) :
    New n (s.put db k id row p) := by
  obtain ⟨k', e, he, hn⟩ := h
  rw [Workspace.put]
  by_cases hk : k' = k
  · subst hk
    split
    · refine ⟨k', if e.publicId = id then { e with row := row } else e, ?_, ?_⟩
      · rw [Workspace.rewrite]
        grind
      · split
        · exact hn
        · exact hn
    · refine ⟨k', e, ?_, hn⟩
      rw [Workspace.insert]
      simp_all
  · refine ⟨k', e, ?_, hn⟩
    split
    · rw [Workspace.rewrite]
      simp only [Function.update_of_ne hk]
      exact he
    · rw [Workspace.insert]
      simp only [Function.update_of_ne hk]
      exact he

theorem new_put {id : String} (hnone : s.stored k id = none) (row : k.Row) (p : Dict) :
    New s.nextPk (s.put db k id row p) := by
  rw [Workspace.put, hnone]
  refine ⟨k, ⟨s.nextPk, id, row⟩, ?_, le_rfl⟩
  show _ ∈ Function.update s.entities k _ k
  simp

/-! ### Whole imports -/

theorem New.runAll {es : List (Kind × Dict)} (h : New n s) (hk : Agree known s) (d : Dict) :
    New n (runAll (es.map (fun kp => importEntity db kp.1 kp.2) ++
      [updateSettings db windowDays d]) s).2 := by
  induction es generalizing s known with
  | nil =>
    show New n (Workspaces.runAll [updateSettings db windowDays d] s).2
    rw [Workspaces.runAll]
    cases hs : updateSettings db windowDays d s with
    | none => exact h
    | some s' =>
      obtain ⟨p, -, rfl⟩ := Option.map_eq_some_iff.1 hs
      exact h
  | cons kp es ih =>
    rw [List.map_cons, List.cons_append, Workspaces.runAll]
    cases hs : importEntity db kp.1 kp.2 s with
    | none => exact h
    | some s' =>
      rw [importEntity_eq hk] at hs
      obtain ⟨id, -, hs⟩ := Option.bind_eq_some_iff.1 hs
      obtain ⟨row, -, rfl⟩ := Option.map_eq_some_iff.1 hs
      exact ih (h.put id row kp.2) (hk.put id row kp.2)

theorem updateSettings_eq_none {d : Dict} :
    updateSettings db windowDays d s = none ↔ settingsPatch db d = none := by
  rw [updateSettings, Option.map_eq_none_iff]

theorem runAll_raises {es : List (Kind × Dict)} (hk : Agree known s) (d : Dict) :
    (runAll (es.map (fun kp => importEntity db kp.1 kp.2) ++
      [updateSettings db windowDays d]) s).1 = false ↔
    Importable db known es ∧ settingsPatch db d ≠ none := by
  induction es generalizing s known with
  | nil => grind [runAll, updateSettings_eq_none, Importable]
  | cons kp es ih =>
    obtain ⟨k, p⟩ := kp
    rw [List.map_cons, List.cons_append, runAll, importEntity_eq hk, Importable]
    cases hid : publicId db p with
    | none => simp
    | some id =>
      cases hrow : entityRow db known k id p with
      | none => simp [hrow]
      | some row =>
        simp only [Option.bind_some, hrow, Option.map_some]
        rw [ih (hk.put id row p)]
        grind

theorem agree_deleteAll (s : Workspace) : Agree (fun _ => []) s.deleteAll := fun _ _ => rfl

theorem sameTables_deleteAll : SameTables s s.deleteAll ↔ s.Bare := by
  constructor
  · rintro ⟨hentities, hhistories, hdecisions, haudits⟩
    exact ⟨fun k => (hentities k).symm, hhistories.symm, hdecisions.symm, haudits.symm⟩
  · rintro ⟨hentities, hhistories, hdecisions, haudits⟩
    exact ⟨fun k => (hentities k).symm, hhistories.symm, hdecisions.symm, haudits.symm⟩

theorem New.not_same (h : New s.nextPk s') : ¬ SameTables s s' := by
  rintro ⟨hentities, -⟩
  obtain ⟨k, e, he, hn⟩ := h
  rw [hentities k] at he
  exact absurd (s.fresh k e he) (Nat.not_lt.2 hn)

theorem replaceAll_raises (db : Database) (windowDays : ℤ → ℤ) (d : Document) (s : Workspace) :
    (replaceAll db windowDays d s).1 = false ↔ d.Importable db :=
  runAll_raises (agree_deleteAll s) d.settings

/-- An import whose first write is refused has deleted the tables; another one has also created
    an entity. -/
theorem replaceAll_leaves (db : Database) (windowDays : ℤ → ℤ) (d : Document) (s : Workspace)
    (hraises : (replaceAll db windowDays d s).1 = true) :
    (d.StartsRefused db ∧ (replaceAll db windowDays d s).2 = s.deleteAll) ∨
      (¬ d.StartsRefused db ∧ New s.nextPk (replaceAll db windowDays d s).2) := by
  rw [replaceAll, Document.StartsRefused] at *
  cases hes : d.entities with
  | nil =>
    rw [hes] at hraises
    simp only [List.map_nil, List.nil_append, runAll] at hraises ⊢
    cases hs : updateSettings db windowDays d.settings s.deleteAll with
    | none => exact .inl ⟨updateSettings_eq_none.1 hs, rfl⟩
    | some s' =>
      rw [hs] at hraises
      cases hraises
  | cons kp es =>
    obtain ⟨k, p⟩ := kp
    simp only [List.map_cons, List.cons_append, runAll, importEntity_eq (agree_deleteAll s)]
    cases hid : publicId db p with
    | none => exact .inl ⟨.inl rfl, rfl⟩
    | some id =>
      have hnew : entityRow db (fun _ => []) k id p = newRow db k p := rfl
      rw [Option.bind_some, hnew]
      cases hrow : newRow db k p with
      | none => exact .inl ⟨.inr rfl, rfl⟩
      | some row =>
        refine .inr ⟨by simp, ?_⟩
        exact (new_put (s := s.deleteAll) rfl row p).runAll ((agree_deleteAll s).put id row p) _

def plainTexts : Database where
  py := asciiText
  text _ v := v.asStr
  integer _ := true
  audited _ _ := true

def oneDecision : Workspace where
  entities _ := []
  histories := []
  audits := []
  decisions := [.dict [("outcome", .str "approve")]]
  promotions := []
  errors := []
  settings := none
  nextPk := 0
  fresh _ _ he := by cases he

def variableOf (id : String) (name : Dict) : Dict :=
  ([("id", .str id), ("category", .str "bureau"), ("source_id", .str "bureau"),
    ("code", .str "def compute(payload): return 1")] : Dict) ++ name

def secondUnnamed : Document where
  connectors := []
  vars := [variableOf "v1" [("name", .str "one")], variableOf "v2" []]
  rules := []
  scorecards := []
  policies := []
  settings := []

end RuleMind.Workspaces
