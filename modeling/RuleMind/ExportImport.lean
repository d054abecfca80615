/-
  Export and import of a workspace: `replace_all` of `app/storage.py` on what `export_config`
  gives, in the same workspace.

  The serialisers leave out or change little that a decision reads: an empty list for a missing
  one, the format of a rule without one.  They mask the secrets of a connector's configuration,
  and the mask is what is stored again.
-/
import Mathlib.Data.List.Infix
import RuleMind.WorkspaceImport
import RuleMind.Executor
import Mathlib.Data.List.Sort

namespace RuleMind.Workspaces

open SettingsWrites

/-! ### Serialisers -/

/-- `SECRET_FIELD_MARKERS`. -/
def SECRET_FIELD_MARKERS : List String :=
  ["token", "secret", "password", "api_key", "apikey", "client_secret", "private_key",
    "passphrase", "client_cert_p12"]

section Serialisers
-- `lower` is `str.lower`
variable (lower : String → String)

def isSecret (key : String) : Bool :=
  SECRET_FIELD_MARKERS.any fun marker => decide (marker.toList <:+: (lower key).toList)

def mask : Value := .str "••••••••"

mutual

def maskSecretValues : Value → Value
  | .dict kvs => .dict (maskFields kvs)
  | .list vs => .list (maskItems vs)
  | v => v

def maskFields : List (String × Value) → List (String × Value)
  | [] => []
  | (key, item) :: kvs =>
    (key, if isSecret lower key then mask else maskSecretValues item) :: maskFields kvs

def maskItems : List Value → List Value
  | [] => []
  | v :: vs => maskSecretValues v :: maskItems vs

end

/-- `value or []`. -/
def orNone (v : Value) : Value := Value.orElse (some v) (.list [])

def connectorToDict (includeSecrets : Bool) (id : String) (row : ConnectorRow) : Dict :=
  [("id", .str id), ("name", .str row.name), ("icon", optStr row.icon),
    ("color", optStr row.color), ("description", optStr row.description),
    ("schema_paths", orNone row.schemaFields), ("sample_payload", orEmpty row.samplePayload),
    ("is_active", .bool row.isActive),
    ("config", if includeSecrets then row.config else maskSecretValues lower row.config)]

def variableToDict (id : String) (row : VariableRow) : Dict :=
  [("id", .str id), ("name", .str row.name), ("category", .str row.category),
    ("source_id", .str row.sourceId), ("code", .str row.code),
    ("description", optStr row.description), ("status", .str row.status),
    ("last_test_result", row.lastTestResult), ("version", .int row.version)]

/-- `model.rule_format if model.rule_format else ("v2" if model.tree else "v1")`. -/
def RuleRow.format (row : RuleRow) : String :=
  if row.ruleFormat ≠ "" then row.ruleFormat else if row.tree.truthy then "v2" else "v1"

def ruleToDict (id : String) (row : RuleRow) : Dict :=
  [("id", .str id), ("name", .str row.name), ("nodes", orNone row.nodes), ("tree", row.tree),
    ("rule_format", .str row.format), ("expression", optStr row.expression),
    ("status", .str row.status), ("last_test_result", row.lastTestResult),
    ("version", .int row.version)]

def scorecardToDict (id : String) (row : ScorecardRow) : Dict :=
  [("id", .str id), ("name", .str row.name), ("base_score", .int row.baseScore),
    ("max_score", .int row.maxScore), ("bins", orNone row.bins), ("status", .str row.status),
    ("last_test_result", row.lastTestResult), ("version", .int row.version)]

def policyToDict (id : String) (row : PolicyRow) : Dict :=
  [("id", .str id), ("name", .str row.name), ("trigger", row.trigger),
    ("steps", orNone row.steps), ("defaultOutcome", optStr row.defaultOutcome),
    ("status", .str row.status),
    ("lifecycle_status", .str (if row.lifecycleStatus = "" then "draft" else row.lifecycleStatus)),
    ("last_test_result", row.lastTestResult), ("version", .int row.version)]

/-- A row as `list_*` gives it. -/
def toDict : (k : Kind) → String → k.Row → Dict
  | .connector => connectorToDict lower false
  | .variable => variableToDict
  | .rule => ruleToDict
  | .scorecard => scorecardToDict
  | .policy => policyToDict

def settingsToDict (x : Setting) : Dict :=
  [("api_base_url", .str x.apiBaseUrl), ("auth_config", x.authConfig),
    ("engine_config", x.engineConfig), ("source_defaults", x.sourceDefaults),
    ("audit_retention_days", .int x.auditRetentionDays),
    ("audit_retention_months", (x.auditRetentionMonths.map Value.int).getD .null),
    ("theme_mode", .str x.themeMode), ("branding", x.branding)]

def Kind.name : (k : Kind) → k.Row → String
  | .connector, row => ConnectorRow.name row
  | .variable, row => VariableRow.name row
  | .rule, row => RuleRow.name row
  | .scorecard, row => ScorecardRow.name row
  | .policy, row => PolicyRow.name row

/-- Connectors are listed by age, the others by name. -/
def listed : (k : Kind) → List (Entity k) → List (Entity k)
  | .connector, es => es
  | k, es => es.mergeSort fun a b => decide (k.name a.row ≤ k.name b.row)

/-- `list_*`, before serialising. -/
def Workspace.listing (s : Workspace) (k : Kind) : List (String × k.Row) :=
  (listed k (s.entities k)).map fun e => (e.publicId, e.row)

/-- What `export_config` gives of a kind. -/
def Workspace.exported (s : Workspace) (k : Kind) : List Dict :=
  (s.listing k).map fun x => toDict lower k x.1 x.2

/-- `export_config`, less the error events, which an import does not read. -/
def exportConfig (s : Workspace) : Document where
  connectors := s.exported lower .connector
  vars := s.exported lower .variable
  rules := s.exported lower .rule
  scorecards := s.exported lower .scorecard
  policies := s.exported lower .policy
  settings := settingsToDict (getSettings s.settings)

end Serialisers

/-! ### Decisions -/

/-- What decisions read of a workspace.  The stage of a policy's lifecycle and the retention are
    read by none of them. -/
structure View where
  connectors : List (String × Dict)
  /-- The configurations as `get_connector` with secrets gives them. -/
  secrets : List (String × Value)
  vars : List (String × Dict)
  rules : List (String × Dict)
  scorecards : List (String × Dict)
  policies : List (String × Dict)
  settings : Setting

def policyView (row : PolicyRow) : PolicyRow := { row with lifecycleStatus := "" }

def settingsView (x : Setting) : Setting :=
  { x with auditRetentionDays := 0, auditRetentionMonths := none }

def Workspace.secrets (s : Workspace) : List (String × Value) :=
  (s.listing .connector).map fun x => (x.1, ConnectorRow.config x.2)

def Workspace.view (lower : String → String) (s : Workspace) : View where
  connectors := (s.listing .connector).map fun x => (x.1, connectorToDict lower false x.1 x.2)
  secrets := s.secrets
  vars := (s.listing .variable).map fun x => (x.1, variableToDict x.1 x.2)
  rules := (s.listing .rule).map fun x => (x.1, ruleToDict x.1 x.2)
  scorecards := (s.listing .scorecard).map fun x => (x.1, scorecardToDict x.1 x.2)
  policies := (s.listing .policy).map fun x => (x.1, policyToDict x.1 (policyView x.2))
  settings := settingsView (getSettings s.settings)

/-- What the engines have beside the catalogs: the full executor's surroundings and the run it
    starts with, the decision tables, the evaluators of `core.decide`. -/
structure Engines (W : Type) where
  host : View → Host W
  start : View → String → Value → Run W
  frames : ℕ
  py : PyText
  decisionTables : Dict
  evaluators : View → Value → Evaluators

section Decisions
variable {W : Type} (g : Engines W) (v : View)

/-- `{item["id"]: item for item in ...}`. -/
def byId (items : List (String × Dict)) : Dict :=
  items.foldl (fun d x => setKey d x.1 (.dict x.2)) []

def View.policySteps (id : String) : Option (List Value) :=
  (v.policies.lookup id).bind fun p => (p.lookup "steps").bind Value.asList

def hostOf : Host W :=
  { g.host v with
    rules := fun _ => byId v.rules
    scorecards := byId v.scorecards
    decisionTables := g.decisionTables
    connectors := byId v.connectors
    policySteps := v.policySteps }

/-- The full executor on a policy: how it ends, and the outcome. -/
def executorOutcome (id : String) (payload : Value) : Option (Except Raised Unit × String) :=
  (v.policySteps id).map fun steps =>
    let end_ := runSteps (hostOf g v) (byId v.rules) g.frames steps 0 0 (g.start v id payload)
    (end_.1, end_.2.ctx.outcome)

/-- `core.decide` on a policy. -/
def coreOutcome (id : String) (payload : Value) : Option (Except PyError String) :=
  (v.policySteps id).map fun steps =>
    coreDecide g.py (g.evaluators v payload)
      ⟨byId v.rules, byId v.scorecards, g.decisionTables⟩ steps

end Decisions

/-- Every policy decides as before, on both engines and every payload. -/
def SameDecisions (lower : String → String) (s s' : Workspace) : Prop :=
  ∀ (W : Type) (g : Engines W) (id : String) (payload : Value),
    executorOutcome g (s'.view lower) id payload = executorOutcome g (s.view lower) id payload ∧
      coreOutcome g (s'.view lower) id payload = coreOutcome g (s.view lower) id payload

/-- Every connector's configuration decrypts to what it was. -/
def SameSecrets (s s' : Workspace) : Prop := s'.secrets = s.secrets

/-! ### What is stored again -/

def again (lower : String → String) : (k : Kind) → k.Row → k.Row
  | .connector, row =>
    { (row : ConnectorRow) with
      schemaFields := orNone (ConnectorRow.schemaFields row)
      samplePayload := orEmpty (ConnectorRow.samplePayload row)
      config := maskSecretValues lower (ConnectorRow.config row) }
  | .variable, row => row
  | .rule, row =>
    { (row : RuleRow) with
      nodes := orNone (RuleRow.nodes row), ruleFormat := RuleRow.format row }
  | .scorecard, row => { (row : ScorecardRow) with bins := orNone (ScorecardRow.bins row) }
  | .policy, row =>
    { (row : PolicyRow) with steps := orNone (PolicyRow.steps row), lifecycleStatus := "draft" }

/-- A text column stores a text that it holds as it is. -/
def Database.Holds (db : Database) (width : Option ℕ) (t : String) : Prop :=
  db.text width (.str t) = some t

def Database.HoldsOpt (db : Database) (width : Option ℕ) (t : Option String) : Prop :=
  ∀ x, t = some x → db.Holds width x

def Fits (db : Database) : (k : Kind) → k.Row → Prop
  | .connector, (row : ConnectorRow) => db.Holds (some 255) row.name ∧
      db.HoldsOpt (some 128) row.icon ∧ db.HoldsOpt (some 32) row.color ∧
      db.HoldsOpt none row.description
  | .variable, (row : VariableRow) => db.Holds (some 255) row.name ∧
      db.Holds (some 128) row.category ∧ db.Holds (some 128) row.sourceId ∧
      db.Holds none row.code ∧ db.HoldsOpt none row.description ∧
      db.Holds (some 16) row.status ∧ db.integer row.version = true
  | .rule, (row : RuleRow) => db.Holds (some 255) row.name ∧ db.Holds (some 16) row.format ∧
      db.HoldsOpt none row.expression ∧ db.Holds (some 16) row.status ∧
      db.integer row.version = true
  | .scorecard, (row : ScorecardRow) => db.Holds (some 255) row.name ∧
      db.integer row.baseScore = true ∧ db.integer row.maxScore = true ∧
      db.Holds (some 16) row.status ∧ db.integer row.version = true
  | .policy, (row : PolicyRow) => db.Holds (some 255) row.name ∧
      db.HoldsOpt (some 16) row.defaultOutcome ∧ db.Holds (some 16) row.status ∧
      db.integer row.version = true

/-- What the database keeps of every workspace: public ids are unique, and the columns take what
    they hold. -/
structure Lawful (db : Database) (s : Workspace) : Prop where
  unique : ∀ k, ((s.entities k).map Entity.publicId).Nodup
  ids : ∀ k, ∀ e ∈ s.entities k, db.Holds (some 128) e.publicId
  rows : ∀ k, ∀ e ∈ s.entities k, Fits db k e.row
  url : db.Holds (some 255) (getSettings s.settings).apiBaseUrl
  theme : db.Holds (some 16) (getSettings s.settings).themeMode
  days : db.integer (getSettings s.settings).auditRetentionDays = true

variable {db : Database} {lower : String → String}

theorem nullable_optStr {width : Option ℕ} {t : Option String} (h : db.HoldsOpt width t) :
    db.nullable width (optStr t) = some t := by
  cases t with
  | none => rfl
  | some x =>
    show (db.text width (.str x)).map some = _
    rw [h x rfl, Option.map_some]

theorem number_int {n : ℤ} (h : db.integer n = true) : db.number (.int n) = some n := by
  show (some n).filter db.integer = some n
  rw [Option.filter_some, if_pos h]

/-- **A creator stores of a serialised row what `again` says.** -/
theorem newRow_toDict (k : Kind) (id : String) (row : k.Row) (h : Fits db k row) :
    newRow db k (toDict lower k id row) = some (again lower k row) := by
  cases k with
  | connector =>
    obtain ⟨hname, hicon, hcolor, hdescription⟩ := h
    have hicon := nullable_optStr hicon
    have hcolor := nullable_optStr hcolor
    have hdescription := nullable_optStr hdescription
    show connectorRow db (connectorToDict lower false id row) = _
    rw [connectorRow]
    show ((db.text (some 255) (.str (ConnectorRow.name row))).bind fun name =>
      (db.nullable (some 128) (optStr (ConnectorRow.icon row))).bind fun icon =>
      (db.nullable (some 32) (optStr (ConnectorRow.color row))).bind fun color =>
      (db.nullable none (optStr (ConnectorRow.description row))).bind fun description => _) = _
    rw [hname, hicon, hcolor, hdescription]
    rfl
  | «variable» =>
    obtain ⟨hname, hcategory, hsource, hcode, hdescription, hstatus, hversion⟩ := h
    have hdescription := nullable_optStr hdescription
    have hversion := number_int hversion
    show variableRow db (variableToDict id row) = _
    rw [variableRow]
    show ((db.text (some 255) (.str (VariableRow.name row))).bind fun name =>
      (db.text (some 128) (.str (VariableRow.category row))).bind fun category =>
      (db.text (some 128) (.str (VariableRow.sourceId row))).bind fun sourceId =>
      (db.text none (.str (VariableRow.code row))).bind fun code =>
      (db.nullable none (optStr (VariableRow.description row))).bind fun description =>
      (db.text (some 16) (.str (VariableRow.status row))).bind fun status =>
      (db.number (.int (VariableRow.version row))).bind fun version => _) = _
    rw [hname, hcategory, hsource, hcode, hdescription, hstatus, hversion]
    rfl
  | rule =>
    obtain ⟨hname, hformat, hexpression, hstatus, hversion⟩ := h
    have hexpression := nullable_optStr hexpression
    have hversion := number_int hversion
    show ruleRow db (ruleToDict id row) = _
    rw [ruleRow]
    show ((db.text (some 255) (.str (RuleRow.name row))).bind fun name =>
      (db.text (some 16) (.str (RuleRow.format row))).bind fun format =>
      (db.nullable none (optStr (RuleRow.expression row))).bind fun expression =>
      (db.text (some 16) (.str (RuleRow.status row))).bind fun status =>
      (db.number (.int (RuleRow.version row))).bind fun version => _) = _
    rw [hname, hformat, hexpression, hstatus, hversion]
    rfl
  | scorecard =>
    obtain ⟨hname, hbase, hmax, hstatus, hversion⟩ := h
    have hbase := number_int hbase
    have hmax := number_int hmax
    have hversion := number_int hversion
    show scorecardRow db (scorecardToDict id row) = _
    rw [scorecardRow]
    show ((db.text (some 255) (.str (ScorecardRow.name row))).bind fun name =>
      (db.number (.int (ScorecardRow.baseScore row))).bind fun baseScore =>
      (db.number (.int (ScorecardRow.maxScore row))).bind fun maxScore =>
      (db.text (some 16) (.str (ScorecardRow.status row))).bind fun status =>
      (db.number (.int (ScorecardRow.version row))).bind fun version => _) = _
    rw [hname, hbase, hmax, hstatus, hversion]
    rfl
  | policy =>
    obtain ⟨hname, houtcome, hstatus, hversion⟩ := h
    have houtcome := nullable_optStr houtcome
    have hversion := number_int hversion
    show policyRow db (policyToDict id row) = _
    rw [policyRow]
    show ((db.text (some 255) (.str (PolicyRow.name row))).bind fun name =>
      (db.nullable (some 16) (optStr (PolicyRow.defaultOutcome row))).bind fun outcome =>
      (db.text (some 16) (.str (PolicyRow.status row))).bind fun status =>
      (db.number (.int (PolicyRow.version row))).bind fun version => _) = _
    rw [hname, houtcome, hstatus, hversion]
    rfl

/-! ### The import of an export -/

variable {windowDays : ℤ → ℤ} {s s' : Workspace}

def Workspace.rows (s : Workspace) (k : Kind) : List (String × k.Row) :=
  (s.entities k).map fun e => (e.publicId, e.row)

theorem publicId_toDict (k : Kind) (id : String) (row : k.Row) :
    publicId db (toDict lower k id row) = db.text (some 128) (.str id) := by
  cases k with
  | connector => rfl
  | «variable» => rfl
  | rule => rfl
  | scorecard => rfl
  | policy => rfl

theorem rows_insert (k : Kind) (id : String) (row : k.Row) (p : Dict) :
    (s.insert db k id row p).rows k = s.rows k ++ [(id, row)] := by
  show (Function.update s.entities k _ k).map _ = _
  rw [Function.update_self, List.map_append]
  rfl

variable {k : Kind}

theorem rows_insert_of_ne {k' : Kind} (hk : k' ≠ k) (id : String) (row : k.Row) (p : Dict) :
    (s.insert db k id row p).rows k' = s.rows k' := by
  show (Function.update s.entities k _ k').map _ = _
  rw [Function.update_of_ne hk]
  rfl

theorem importEntity_toDict (lower : String → String) {id : String} {row : k.Row}
    (hid : db.Holds (some 128) id) (hrow : Fits db k row)
    (hnew : id ∉ (s.rows k).map Prod.fst) :
    importEntity db k (toDict lower k id row) s =
      some (s.insert db k id (again lower k row) (toDict lower k id row)) := by
  have hnone : s.stored k id = none := by
    refine List.find?_eq_none.2 fun e he hname => hnew ?_
    rw [Workspace.rows, List.map_map]
    exact List.mem_map.2 ⟨e, he, by simpa using hname⟩
  rw [importEntity, publicId_toDict, hid]
  simp only [Option.bind_eq_bind, Option.bind_some, hnone, newRow_toDict k id row hrow]
  rfl

theorem runAll_kind (lower : String → String) (k : Kind)
    (ts : List (Workspace → Option Workspace)) :
    ∀ (l : List (String × k.Row)) (s : Workspace),
      (∀ x ∈ l, db.Holds (some 128) x.1 ∧ Fits db k x.2) →
      ((s.rows k).map Prod.fst ++ l.map Prod.fst).Nodup →
      ∃ s', runAll (l.map (fun x => importEntity db k (toDict lower k x.1 x.2)) ++ ts) s =
          runAll ts s' ∧
        s'.rows k = s.rows k ++ l.map (fun x => (x.1, again lower k x.2)) ∧
        (∀ k' ≠ k, s'.rows k' = s.rows k') ∧ s'.settings = s.settings
  | [], s, _, _ => ⟨s, rfl, (List.append_nil _).symm, fun _ _ => rfl, rfl⟩
  | x :: l, s, hfits, hnodup => by
    have hx := hfits x List.mem_cons_self
    have hnew : x.1 ∉ (s.rows k).map Prod.fst := fun hmem =>
      (List.nodup_append.1 hnodup).2.2 x.1 hmem x.1 List.mem_cons_self rfl
    have hinsert := importEntity_toDict lower hx.1 hx.2 hnew
    have hrows : (s.insert db k x.1 (again lower k x.2) (toDict lower k x.1 x.2)).rows k =
        s.rows k ++ [(x.1, again lower k x.2)] := rows_insert k x.1 _ _
    obtain ⟨s', hrun, hrows', hothers, hsettings⟩ := runAll_kind lower k ts l _
      (fun y hy => hfits y (.tail _ hy)) (by
        rw [hrows, List.map_append, List.append_assoc]
        exact hnodup)
    refine ⟨s', ?_, ?_, fun k' hk' => ?_, hsettings⟩
    · rw [List.map_cons, List.cons_append, runAll, hinsert]
      exact hrun
    · rw [hrows', hrows, List.append_assoc]
      rfl
    · rw [hothers k' hk', rows_insert_of_ne hk']

theorem mem_listed {e : Entity k} {es : List (Entity k)} : e ∈ listed k es ↔ e ∈ es := by
  cases k with
  | connector => exact Iff.rfl
  | «variable» => exact List.mem_mergeSort
  | rule => exact List.mem_mergeSort
  | scorecard => exact List.mem_mergeSort
  | policy => exact List.mem_mergeSort

theorem listed_perm (k : Kind) (es : List (Entity k)) : (listed k es).Perm es := by
  cases k with
  | connector => exact List.Perm.refl _
  | «variable» => exact List.mergeSort_perm _ _
  | rule => exact List.mergeSort_perm _ _
  | scorecard => exact List.mergeSort_perm _ _
  | policy => exact List.mergeSort_perm _ _

theorem Lawful.listing (h : Lawful db s) (k : Kind) :
    ∀ x ∈ s.listing k, db.Holds (some 128) x.1 ∧ Fits db k x.2 := by
  intro x hx
  obtain ⟨e, he, rfl⟩ := List.mem_map.1 hx
  have he := mem_listed.1 he
  exact ⟨h.ids k e he, h.rows k e he⟩

theorem Lawful.listing_nodup (h : Lawful db s) (k : Kind) : ((s.listing k).map Prod.fst).Nodup := by
  rw [Workspace.listing, List.map_map]
  exact ((listed_perm k (s.entities k)).map Entity.publicId).nodup_iff.2 (h.unique k)

theorem transactions_export (s : Workspace) :
    (exportConfig lower s).entities.map (fun kp => importEntity db kp.1 kp.2) =
      (s.listing .connector).map
          (fun x => importEntity db .connector (toDict lower .connector x.1 x.2)) ++
        ((s.listing .variable).map
          (fun x => importEntity db .variable (toDict lower .variable x.1 x.2)) ++
        ((s.listing .rule).map (fun x => importEntity db .rule (toDict lower .rule x.1 x.2)) ++
        ((s.listing .scorecard).map
          (fun x => importEntity db .scorecard (toDict lower .scorecard x.1 x.2)) ++
        (s.listing .policy).map
          (fun x => importEntity db .policy (toDict lower .policy x.1 x.2))))) := by
  simp only [Document.entities, exportConfig, Workspace.exported, List.map_append, List.map_map,
    Function.comp_def, List.append_assoc]

/-- The JSON columns that `get_settings` reads are what `value or {}` leaves. -/
structure Read (x : Setting) : Prop where
  auth : orEmpty x.authConfig = x.authConfig
  engine : orEmpty x.engineConfig = x.engineConfig
  sources : orEmpty x.sourceDefaults = x.sourceDefaults
  branding : orEmpty x.branding = x.branding

theorem read_getSettings (row : Option Setting) : Read (getSettings row) := by
  cases row with
  | none => exact ⟨rfl, rfl, rfl, rfl⟩
  | some row =>
    exact ⟨orEmpty_idem row.authConfig, orEmpty_idem row.engineConfig,
      orEmpty_idem row.sourceDefaults, orEmpty_idem row.branding⟩

theorem patched_of_orEmpty {d : Dict} (key : String) {v : Value} (hd : d.lookup key = some v)
    (hv : orEmpty v = v) : patched d key = some v := by
  have hnull : v.isNull = false := by
    cases v with
    | null => cases hv
    | bool b => rfl
    | int n => rfl
    | float q => rfl
    | inf neg => rfl
    | str s => rfl
    | list vs => rfl
    | dict kvs => rfl
  rw [patched, hd, Option.filter_some, hnull]
  rfl

theorem settingsPatch_export (h : Lawful db s) : ∃ p,
    settingsPatch db (settingsToDict (getSettings s.settings)) = some p ∧
    p.apiBaseUrl = some (getSettings s.settings).apiBaseUrl ∧
    p.themeMode = some (getSettings s.settings).themeMode ∧
    p.authConfig = some (getSettings s.settings).authConfig ∧
    p.engineConfig = some (getSettings s.settings).engineConfig ∧
    p.sourceDefaults = some (getSettings s.settings).sourceDefaults ∧
    p.branding = some (getSettings s.settings).branding := by
  have hread := read_getSettings s.settings
  have hurl := h.url
  have htheme := h.theme
  have hdays := number_int h.days
  revert hread hurl htheme hdays
  generalize getSettings s.settings = x
  intro hread hurl htheme hdays
  have hdays : ((patched (settingsToDict x) "audit_retention_days").elim (some none) fun v =>
      (db.number v).map some) = some (some x.auditRetentionDays) := by
    show (db.number (.int x.auditRetentionDays)).map some = _
    rw [hdays, Option.map_some]
  have hauth := patched_of_orEmpty (d := settingsToDict x) "auth_config" rfl hread.auth
  have hengine := patched_of_orEmpty (d := settingsToDict x) "engine_config" rfl hread.engine
  have hsources := patched_of_orEmpty (d := settingsToDict x) "source_defaults" rfl hread.sources
  have hbranding := patched_of_orEmpty (d := settingsToDict x) "branding" rfl hread.branding
  have hurl : ((patched (settingsToDict x) "api_base_url").elim (some none) fun v =>
      (db.required (some 255) v).map some) = some (some x.apiBaseUrl) := by
    show (db.text (some 255) (.str x.apiBaseUrl)).map some = _
    rw [hurl, Option.map_some]
  have htheme : ((patched (settingsToDict x) "theme_mode").elim (some none) fun v =>
      (db.required (some 16) v).map some) = some (some x.themeMode) := by
    show (db.text (some 16) (.str x.themeMode)).map some = _
    rw [htheme, Option.map_some]
  rw [settingsPatch, hurl, htheme, hdays]
  simp only [Option.bind_eq_bind, Option.bind_some, hauth, hengine, hsources, hbranding]
  -- the days are written where the months are none, or a number that stands for no window
  cases hm : x.auditRetentionMonths with
  | none =>
    have hnull : patched (settingsToDict x) "audit_retention_months" = none := by
      show Option.filter _ (some ((x.auditRetentionMonths.map Value.int).getD .null)) = none
      rw [hm]
      rfl
    simp_all
  | some m =>
    have hint : patched (settingsToDict x) "audit_retention_months" = some (.int m) := by
      show Option.filter _ (some ((x.auditRetentionMonths.map Value.int).getD .null)) = _
      rw [hm]
      rfl
    rw [hint]
    rw [Option.elim_some]
    show ∃ p, Option.bind (some (some m)) _ = some p ∧ _
    cases hn : normalizeRetentionMonths m <;> simp_all

theorem updateSettings_export (windowDays : ℤ → ℤ) (h : Lawful db s) (s' : Workspace) :
    ∃ s'', updateSettings db windowDays (settingsToDict (getSettings s.settings)) s' = some s'' ∧
      s''.entities = s'.entities ∧
      settingsView (getSettings s''.settings) = settingsView (getSettings s.settings) := by
  obtain ⟨p, hp, hurl, htheme, hauth, hengine, hsources, hbranding⟩ := settingsPatch_export h
  have hread := read_getSettings s.settings
  refine ⟨{ s' with
    settings := some (write windowDays (s'.settings.getD DEFAULT_SETTINGS)
      (getSettings s'.settings) p) }, ?_, rfl, ?_⟩
  · rw [updateSettings, hp]
    rfl
  · revert hread hurl htheme hauth hengine hsources hbranding
    generalize getSettings s.settings = x
    intro hurl htheme hauth hengine hsources hbranding hread
    have hauth' : orEmpty (p.authConfig.getD (getSettings s'.settings).authConfig) =
        x.authConfig := by
      rw [hauth]
      exact hread.auth
    have hengine' : orEmpty (p.engineConfig.getD (getSettings s'.settings).engineConfig) =
        x.engineConfig := by
      rw [hengine]
      exact hread.engine
    have hsources' : orEmpty (p.sourceDefaults.getD (getSettings s'.settings).sourceDefaults) =
        x.sourceDefaults := by
      rw [hsources]
      exact hread.sources
    have hbranding' : orEmpty (orEmpty (p.branding.getD (getSettings s'.settings).branding)) =
        x.branding := by
      rw [hbranding, orEmpty_idem]
      exact hread.branding
    show Setting.mk (p.apiBaseUrl.getD _) (orEmpty (p.authConfig.getD _))
      (orEmpty (p.engineConfig.getD _)) (orEmpty (p.sourceDefaults.getD _)) 0 none
      (p.themeMode.getD _) (orEmpty (orEmpty (p.branding.getD _))) = _
    rw [hurl, htheme, hauth', hengine', hsources', hbranding']
    rfl

/-- **What an import of an export leaves**: it does not raise, and every row is stored again in
    the order of the export. -/
theorem replaceAll_export (windowDays : ℤ → ℤ) (lower : String → String) (h : Lawful db s) : ∃ s',
    replaceAll db windowDays (exportConfig lower s) s = (false, s') ∧
      (∀ k, s'.rows k = (s.listing k).map fun x => (x.1, again lower k x.2)) ∧
      settingsView (getSettings s'.settings) = settingsView (getSettings s.settings) := by
  have hnodup : ∀ k, (([] : List (String × k.Row)).map Prod.fst ++
      (s.listing k).map Prod.fst).Nodup := fun k => h.listing_nodup k
  rw [replaceAll, transactions_export]
  simp only [List.append_assoc]
  obtain ⟨s₁, hrun₁, hrows₁, hothers₁, -⟩ := runAll_kind lower .connector _
    (s.listing .connector) s.deleteAll (h.listing _) (hnodup _)
  rw [hrun₁]
  obtain ⟨s₂, hrun₂, hrows₂, hothers₂, -⟩ := runAll_kind lower .variable _
    (s.listing .variable) s₁ (h.listing _) (by
      rw [hothers₁ _ (by decide)]
      exact hnodup _)
  rw [hrun₂]
  obtain ⟨s₃, hrun₃, hrows₃, hothers₃, -⟩ := runAll_kind lower .rule _
    (s.listing .rule) s₂ (h.listing _) (by
      rw [hothers₂ _ (by decide), hothers₁ _ (by decide)]
      exact hnodup _)
  rw [hrun₃]
  obtain ⟨s₄, hrun₄, hrows₄, hothers₄, -⟩ := runAll_kind lower .scorecard _
    (s.listing .scorecard) s₃ (h.listing _) (by
      rw [hothers₃ _ (by decide), hothers₂ _ (by decide), hothers₁ _ (by decide)]
      exact hnodup _)
  rw [hrun₄]
  obtain ⟨s₅, hrun₅, hrows₅, hothers₅, -⟩ := runAll_kind lower .policy _
    (s.listing .policy) s₄ (h.listing _) (by
      rw [hothers₄ _ (by decide), hothers₃ _ (by decide), hothers₂ _ (by decide),
        hothers₁ _ (by decide)]
      exact hnodup _)
  rw [hrun₅]
  obtain ⟨s₆, hrun₆, hentities, hsettings⟩ := updateSettings_export windowDays h s₅
  refine ⟨s₆, ?_, fun k => ?_, hsettings⟩
  · show runAll [updateSettings db windowDays (settingsToDict (getSettings s.settings))] s₅ = _
    rw [runAll, hrun₆]
    rfl
  · rw [Workspace.rows, hentities]
    show s₅.rows k = _
    cases k with
    | connector =>
      rw [hothers₅ _ (by decide), hothers₄ _ (by decide), hothers₃ _ (by decide),
        hothers₂ _ (by decide), hrows₁]
      rfl
    | «variable» =>
      rw [hothers₅ _ (by decide), hothers₄ _ (by decide), hothers₃ _ (by decide), hrows₂,
        hothers₁ _ (by decide)]
      rfl
    | rule =>
      rw [hothers₅ _ (by decide), hothers₄ _ (by decide), hrows₃, hothers₂ _ (by decide),
        hothers₁ _ (by decide)]
      rfl
    | scorecard =>
      rw [hothers₅ _ (by decide), hrows₄, hothers₃ _ (by decide), hothers₂ _ (by decide),
        hothers₁ _ (by decide)]
      rfl
    | policy =>
      rw [hrows₅, hothers₄ _ (by decide), hothers₃ _ (by decide), hothers₂ _ (by decide),
        hothers₁ _ (by decide)]
      rfl

/-! ### The listing of what is stored again -/

theorem name_again (k : Kind) (row : k.Row) : k.name (again lower k row) = k.name row := by
  cases k with
  | connector => rfl
  | «variable» => rfl
  | rule => rfl
  | scorecard => rfl
  | policy => rfl

def Named (k : Kind) (l : List (String × k.Row)) : Prop :=
  l.Pairwise fun x y => k.name x.2 ≤ k.name y.2

theorem named_mergeSort (k : Kind) (es : List (Entity k)) :
    Named k ((es.mergeSort fun a b => decide (k.name a.row ≤ k.name b.row)).map
      fun e => (e.publicId, e.row)) := by
  rw [Named, List.pairwise_map]
  refine (List.pairwise_mergeSort (fun a b c hab hbc => ?_) (fun a b => ?_) es).imp
    fun hle => of_decide_eq_true hle
  · grind
  · grind

theorem mergeSort_of_named {es : List (Entity k)}
    (h : Named k (es.map fun e => (e.publicId, e.row))) :
    (es.mergeSort fun a b => decide (k.name a.row ≤ k.name b.row)) = es := by
  rw [Named, List.pairwise_map] at h
  exact List.mergeSort_of_pairwise (h.imp fun hle => decide_eq_true hle)

theorem listing_again (h : s'.rows k = (s.listing k).map fun x => (x.1, again lower k x.2)) :
    s'.listing k = (s.listing k).map fun x => (x.1, again lower k x.2) := by
  have hnamed : Named k (s.listing k) → Named k (s'.rows k) := by
    intro hlisting
    rw [h, Named, List.pairwise_map]
    refine List.Pairwise.imp (fun hle => ?_) hlisting
    rw [name_again, name_again]
    exact hle
  rw [← h]
  cases k with
  | connector => rfl
  | «variable» =>
    exact congrArg (List.map _) (mergeSort_of_named (hnamed (named_mergeSort .variable _)))
  | rule => exact congrArg (List.map _) (mergeSort_of_named (hnamed (named_mergeSort .rule _)))
  | scorecard =>
    exact congrArg (List.map _) (mergeSort_of_named (hnamed (named_mergeSort .scorecard _)))
  | policy => exact congrArg (List.map _) (mergeSort_of_named (hnamed (named_mergeSort .policy _)))

theorem orNone_idem (v : Value) : orNone (orNone v) = orNone v := by grind [orNone, Value.orElse]

theorem ruleToDict_again (id : String) (row : RuleRow) :
    ruleToDict id (again lower .rule row) = ruleToDict id row := by
  show ruleToDict id { row with nodes := orNone row.nodes, ruleFormat := row.format } = _
  grind [ruleToDict, orNone_idem, RuleRow.format]

theorem connectorToDict_again (id : String) {row : ConnectorRow}
    (h : maskSecretValues lower row.config = row.config) :
    connectorToDict lower false id (again lower .connector row) =
      connectorToDict lower false id row := by
  show connectorToDict lower false id { row with
    schemaFields := orNone row.schemaFields, samplePayload := orEmpty row.samplePayload
    config := maskSecretValues lower row.config } = _
  rw [connectorToDict, connectorToDict, orNone_idem, orEmpty_idem, h, h]

theorem view_again (hrows : ∀ k, s'.rows k = (s.listing k).map fun x => (x.1, again lower k x.2))
    (hsettings : settingsView (getSettings s'.settings) = settingsView (getSettings s.settings))
    (hmask : ∀ x ∈ s.listing .connector,
      maskSecretValues lower (ConnectorRow.config x.2) = ConnectorRow.config x.2) :
    s'.view lower = s.view lower := by
  have hlisting := fun k => listing_again (hrows k)
  rw [Workspace.view, Workspace.view, Workspace.secrets, Workspace.secrets, hsettings]
  simp only [hlisting, List.map_map, Function.comp_def]
  congr 1
  · exact List.map_congr_left fun x hx => Prod.ext rfl (connectorToDict_again x.1 (hmask x hx))
  · exact List.map_congr_left fun x hx => Prod.ext rfl (hmask x hx)
  · exact List.map_congr_left fun x _ => Prod.ext rfl (ruleToDict_again x.1 x.2)
  · refine List.map_congr_left fun x _ => Prod.ext rfl ?_
    show scorecardToDict x.1 { (x.2 : ScorecardRow) with bins := orNone _ } = _
    rw [scorecardToDict, scorecardToDict, orNone_idem]
  · refine List.map_congr_left fun x _ => Prod.ext rfl ?_
    show policyToDict x.1 (policyView { (x.2 : PolicyRow) with
      steps := orNone _, lifecycleStatus := "draft" }) = _
    rw [policyToDict, policyToDict, policyView, policyView, orNone_idem]

theorem secrets_again
    (hrows : ∀ k, s'.rows k = (s.listing k).map fun x => (x.1, again lower k x.2)) :
    SameSecrets s s' ↔ ∀ x ∈ s.listing .connector,
      maskSecretValues lower (ConnectorRow.config x.2) = ConnectorRow.config x.2 := by
  rw [SameSecrets, Workspace.secrets, Workspace.secrets, listing_again (hrows .connector),
    List.map_map, List.map_inj_left]
  constructor
  · intro h x hx
    exact congrArg Prod.snd (h x hx)
  · intro h x hx
    exact Prod.ext rfl (h x hx)

theorem listing_config {P : Value → Prop} :
    (∀ x ∈ s.listing .connector, P (ConnectorRow.config x.2)) ↔
      ∀ e ∈ s.entities .connector, P (ConnectorRow.config e.row) := by
  show (∀ x ∈ (s.entities .connector).map _, _) ↔ _
  rw [List.forall_mem_map]

/-- **Export and import as the identity.**  The workspace decides and decrypts as before exactly
    if every configuration is what `mask_secret_values` makes of it. -/
theorem export_import_iff (windowDays : ℤ → ℤ) (lower : String → String) (h : Lawful db s) :
    ((replaceAll db windowDays (exportConfig lower s) s).1 = false ∧
      SameDecisions lower s (replaceAll db windowDays (exportConfig lower s) s).2 ∧
      SameSecrets s (replaceAll db windowDays (exportConfig lower s) s).2) ↔
    ∀ e ∈ s.entities .connector,
      maskSecretValues lower (ConnectorRow.config e.row) = ConnectorRow.config e.row := by
  obtain ⟨s', hrun, hrows, hsettings⟩ := replaceAll_export windowDays lower h
  rw [hrun]
  constructor
  · rintro ⟨-, -, hsecrets⟩
    have hmask := (secrets_again hrows).1 hsecrets
    exact (listing_config (P := fun c => maskSecretValues lower c = c)).1 hmask
  · intro hmask
    have hmask := (listing_config (P := fun c => maskSecretValues lower c = c)).2 hmask
    refine ⟨rfl, fun W g id payload => ?_, (secrets_again hrows).2 hmask⟩
    rw [view_again hrows hsettings hmask]
    exact ⟨rfl, rfl⟩

def oneConnector (config : Dict) : Workspace where
  entities
    | .connector => [⟨0, "crm", ⟨"CRM", none, none, none, .list [], .dict [], true, .dict config⟩⟩]
    | _ => []
  histories := []
  audits := []
  decisions := []
  promotions := []
  errors := []
  settings := none
  nextPk := 1
  fresh k e he := by grind

def tokenConfig : Dict := [("token", .str "s3cret")]

def urlConfig : Dict := [("url", .str "https://crm.example")]

theorem lawful_oneConnector (config : Dict) : Lawful plainTexts (oneConnector config) where
  unique k := by
    cases k with
    | connector => exact List.nodup_singleton _
    | «variable» => exact List.nodup_nil
    | rule => exact List.nodup_nil
    | scorecard => exact List.nodup_nil
    | policy => exact List.nodup_nil
  ids k e _ := rfl
  rows k e he := by
    cases k with
    | connector =>
      cases List.mem_singleton.1 he
      have hnone : ∀ width, plainTexts.HoldsOpt width none := fun width x hx => by cases hx
      exact ⟨rfl, hnone _, hnone _, hnone _⟩
    | «variable» => cases he
    | rule => cases he
    | scorecard => cases he
    | policy => cases he
  url := rfl
  theme := rfl
  days := rfl

def roundTrip (config : Dict) : Bool × Workspace :=
  replaceAll plainTexts id (exportConfig id (oneConnector config)) (oneConnector config)

/-- After the round trip the token is its mask. -/
theorem token_masked :
    Lawful plainTexts (oneConnector tokenConfig) ∧
      (roundTrip tokenConfig).2.secrets = [("crm", .dict [("token", mask)])] ∧
      ¬ SameSecrets (oneConnector tokenConfig) (roundTrip tokenConfig).2 := by
  have hmask : maskSecretValues id (.dict tokenConfig) = .dict [("token", mask)] := by
    have htoken : isSecret id "token" = true := by decide
    rw [tokenConfig, maskSecretValues, maskFields, maskFields, htoken]
    rfl
  have hsecrets : (roundTrip tokenConfig).2.secrets = [("crm", .dict [("token", mask)])] := by
    obtain ⟨s', hrun, hrows, -⟩ := replaceAll_export id id (lawful_oneConnector tokenConfig)
    rw [roundTrip, hrun, Workspace.secrets, listing_again (hrows .connector), ← hmask]
    rfl
  refine ⟨lawful_oneConnector _, hsecrets, fun hsame => ?_⟩
  rw [SameSecrets, hsecrets] at hsame
  have hconfig : mask = .str "s3cret" := by
    injection hsame with hhead
    injection hhead with _ hdict
    injection hdict with hfields
    injection hfields with hfield
    exact congrArg Prod.snd hfield
  exact absurd (by injection hconfig) (show "••••••••" ≠ "s3cret" by decide)

/-- A configuration without a secret makes the round trip. -/
theorem url_round_trip :
    Lawful plainTexts (oneConnector urlConfig) ∧
      ((roundTrip urlConfig).1 = false ∧
        SameDecisions id (oneConnector urlConfig) (roundTrip urlConfig).2 ∧
        SameSecrets (oneConnector urlConfig) (roundTrip urlConfig).2) := by
  refine ⟨lawful_oneConnector _, (export_import_iff id id (lawful_oneConnector _)).2 ?_⟩
  intro e he
  cases List.mem_singleton.1 he
  rfl

end RuleMind.Workspaces
