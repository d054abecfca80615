/-
  Connectors and their credentials: the routes of `app/routers/authoring.py`, the tables that
  `app/storage.py` writes for them, and the probe of `app/connector_probe.py`.

  A read masks what stands under a secret's name; a write replaces the whole configuration.  The
  route of an update loads the masked form and takes from it what the request leaves out.
-/
import RuleMind.Lib.Replace
import RuleMind.ExportImport

namespace RuleMind.Connectors

open Lib Workspaces

/-! ### Tables -/

/-- A row of `connectors`, of one workspace; `C` are the ciphertexts. -/
structure Row (C : Type) where
  publicId : String
  name : String
  icon : Option String
  color : Option String
  description : Option String
  schemaFields : List String
  samplePayload : Dict
  isActive : Bool
  encryptedConfig : C

/-- A row of `entity_histories`. -/
structure History where
  entityId : String
  version : ℕ
  snapshot : Dict

/-- A row of `error_events`. -/
structure ErrorEvent where
  scope : String
  stage : String
  message : String
  entityType : String
  entityId : String
  details : Dict

/-- `_connector_to_dict`. -/
structure Connector where
  id : String
  name : String
  icon : Option String
  color : Option String
  description : Option String
  schemaPaths : List String
  samplePayload : Dict
  isActive : Bool
  config : Value

structure CreateRequest where
  id : Option String
  name : String
  icon : Option String
  color : Option String
  description : Option String
  schemaPaths : List String
  samplePayload : Dict
  isActive : Bool
  config : Dict

structure UpdateRequest where
  name : Option String
  icon : Option String
  color : Option String
  description : Option String
  schemaPaths : Option (List String)
  samplePayload : Option Dict
  isActive : Option Bool
  config : Option Dict

/-- `str.lower`, `slugify`, and the encryption of a configuration. -/
structure Services (C : Type) where
  lower : String → String
  slugify : String → String
  /-- `encrypt_config_payload` and `decrypt_config_payload`. -/
  encrypt : Value → C
  decrypt : C → Value

abbrev Path := List (String ⊕ ℕ)

section Secrets

variable (lower : String → String)

mutual

/-- What stands under a secret's name, where `mask_secret_values` would put the mask. -/
def secretEntries : Value → List (Path × Value)
  | .dict kvs => secretFields kvs
  | .list vs => secretItems 0 vs
  | _ => []

def secretFields : List (String × Value) → List (Path × Value)
  | [] => []
  | (key, item) :: kvs =>
    (if isSecret lower key then [([.inl key], item)]
      else (secretEntries item).map (Prod.map (.inl key :: ·) id)) ++ secretFields kvs

def secretItems : ℕ → List Value → List (Path × Value)
  | _, [] => []
  | i, v :: vs => (secretEntries v).map (Prod.map (.inr i :: ·) id) ++ secretItems (i + 1) vs

end

def secretAt (config : Value) (path : Path) : Option Value :=
  ((secretEntries lower config).find? fun e => decide (e.1 = path)).map Prod.snd

/-- The last real values, after a request with this configuration. -/
def supply (given : Path → Option Value) (config : Dict) (path : Path) : Option Value :=
  match secretAt lower (.dict config) path with
  | some v => if v = mask then given path else some v
  | none => given path

end Secrets

/-! ### The probe -/

inductive Vet
  | refused (message : String)
  | unresolved (message : String)
  | pinned

/-- How the last attempt of a probe ends, as `_classify_transport_error` tells them apart. -/
inductive Answer
  | status (code : ℕ)
  | timeout
  | tls (text : String)
  | unreachable (text : String)

structure Environment where
  /-- `resolve_template`, at the time of the probe. -/
  resolveTemplate : String → Dict → String
  /-- The secrets that templates have put into the request. -/
  resolved : List String
  vet : String → Vet
  answer : Answer

/-- `ConnectorMisconfigured`. -/
structure Misconfigured where
  code : String
  reason : String

structure Probe where
  passed : Bool
  outcome : String
  reason : String
  status : Option ℕ

def firstStr (config : Dict) (keys : List String) : String :=
  (keys.findSome? fun key =>
    match config.lookup key with
    | some (.str s) => if s = "" then none else some s
    | _ => none).getD ""

/-- `config if isinstance(config, dict) else {}`. -/
def configOf : Value → Dict
  | .dict kvs => kvs
  | _ => []

def connectorSecretValues (lower : String → String) (config : Dict) : List String :=
  config.filterMap fun (key, value) =>
    match value with
    | .str s => if isSecret lower key ∧ s ≠ "" then some s else none
    | _ => none

/-- `***REDACTED***`. -/
def redacted : List Char := '*' :: '*' :: '*' :: ("REDACTED".toList ++ ['*', '*', '*'])

/-- `_redact_resolved_secrets`, of a text: the longest secrets first. -/
def redactResolvedSecrets (secrets : List String) (text : String) : String :=
  String.ofList (((secrets.filter (· ≠ "")).insertionSort fun a b => b.length ≤ a.length).foldl
    (fun t secret => replace secret.toList redacted t) text.toList)

/-- `text[:200]`. -/
def truncated (text : String) : String := String.ofList (text.toList.take 200)

def simulateScheme : String := "rulemind://simulate/"

def classifyStatus (code : ℕ) : Probe :=
  if 200 ≤ code ∧ code < 300 then ⟨true, "reachable", "HTTP " ++ code.repr, some code⟩
  else if code = 401 ∨ code = 403 ∨ code = 407 then
    ⟨false, "auth_failed",
      "HTTP " ++ code.repr ++ " — the endpoint rejected the connector's credentials", some code⟩
  else if 300 ≤ code ∧ code < 400 then
    ⟨false, "http_error",
      "HTTP " ++ code.repr ++ " — redirect not followed; point base_url at the final URL",
      some code⟩
  else ⟨false, "http_error", "HTTP " ++ code.repr, some code⟩

/-- The probe after the guard, before its reason is redacted. -/
def classifyAnswer : Answer → Probe
  | .status code => classifyStatus code
  | .timeout => ⟨false, "timeout", "no response before the probe timeout elapsed", none⟩
  | .tls text => ⟨false, "tls_failure", "TLS handshake failed: " ++ text, none⟩
  | .unreachable text => ⟨false, "unreachable", "connection failed: " ++ text, none⟩

def secretView (lower : String → String) (config : Dict) : Dict :=
  [("secrets", .dict (config.filter fun entry => isSecret lower entry.1))]

def probeConnector {C : Type} (svc : Services C) (env : Environment) (connector : Connector) :
    Except Misconfigured Probe :=
  let config := configOf connector.config
  let raw := firstStr config ["base_url", "webhook_url"]
  if raw = "" then
    .error ⟨"no_endpoint_configured",
      "Connector has no base_url or webhook_url, so there is no endpoint to test."⟩
  else
    let url := env.resolveTemplate raw (secretView svc.lower config)
    if simulateScheme.toList.isPrefixOf url.toList then
      .ok ⟨true, "simulated", "rulemind://simulate endpoint — no connection was attempted", none⟩
    else
      match env.vet url with
      | .unresolved message => .ok ⟨false, "dns_failure", truncated message, none⟩
      | .refused message =>
        .error ⟨"blocked_by_egress_policy", "Blocked by egress policy: " ++ message⟩
      | .pinned =>
        let probe := classifyAnswer env.answer
        .ok { probe with
          reason := truncated (redactResolvedSecrets
            (env.resolved ++ connectorSecretValues svc.lower config) probe.reason) }

/-! ### Storage and routes -/

structure State (C : Type) where
  rows : List (Row C)
  history : List History
  errors : List ErrorEvent
  /-- The last real value that a request has supplied for a connector's secret. -/
  given : String → Path → Option Value
  /-- The configurations that requests have supplied. -/
  sent : List Dict

def State.init {C : Type} : State C := ⟨[], [], [], fun _ _ => none, []⟩

section Storage

variable {C : Type} (svc : Services C)

def connectorToDict (includeSecrets : Bool) (row : Row C) : Connector where
  id := row.publicId
  name := row.name
  icon := row.icon
  color := row.color
  description := row.description
  schemaPaths := row.schemaFields
  samplePayload := row.samplePayload
  isActive := row.isActive
  config := if includeSecrets then svc.decrypt row.encryptedConfig
    else maskSecretValues svc.lower (svc.decrypt row.encryptedConfig)

def State.find (s : State C) (id : String) : Option (Row C) := s.rows.find? (·.publicId == id)

def getConnector (s : State C) (id : String) (includeSecrets : Bool) : Option Connector :=
  (s.find id).map (connectorToDict svc includeSecrets)

def makeId (s : State C) (request : CreateRequest) : Option String :=
  let taken (id : String) : Bool := (s.find id).isSome
  let requested := request.id.getD ""
  if requested ≠ "" then
    let candidate := if svc.slugify requested = "" then requested else svc.slugify requested
    if taken candidate then none else some candidate
  else
    let base := if svc.slugify request.name = "" then "item" else svc.slugify request.name
    if taken base then
      ((List.range (s.rows.length + 1)).map fun i => base ++ "_" ++ (i + 2).repr).find?
        fun id => !taken id
    else some base

def optText (text : Option String) : Value := (text.map Value.str).getD .null

/-- The payload of `create_connector`, which is also the snapshot. -/
def createPayload (id : String) (request : CreateRequest) : Dict :=
  [("id", .str id), ("name", .str request.name), ("icon", optText request.icon),
    ("color", optText request.color), ("description", optText request.description),
    ("schema_paths", .list (request.schemaPaths.map .str)),
    ("sample_payload", .dict request.samplePayload), ("is_active", .bool request.isActive),
    ("config", .dict request.config)]

/-- `Storage.create_connector`: the name is unique, and both rows are written or none. -/
def createConnector (s : State C) (id : String) (request : CreateRequest) : State C :=
  if (s.find id).isSome then s
  else
    { s with
      rows := s.rows ++ [⟨id, request.name, request.icon, request.color, request.description,
        request.schemaPaths, request.samplePayload, request.isActive,
        svc.encrypt (.dict request.config)⟩]
      history := s.history ++ [⟨id, 1, createPayload id request⟩]
      given := Function.update s.given id (supply svc.lower (fun _ => none) request.config)
      sent := s.sent ++ [request.config] }

/-- The patch of the route `update_connector`, over the masked connector. -/
structure Patch where
  name : String
  icon : Option String
  color : Option String
  description : Option String
  schemaPaths : List String
  samplePayload : Dict
  isActive : Bool
  config : Value

/-- `a or b`, of texts. -/
def textOr (a b : Option String) : Option String := if a.getD "" = "" then b else a

def patchOf (request : UpdateRequest) (connector : Connector) : Patch where
  name := (textOr request.name (some connector.name)).getD ""
  icon := textOr request.icon connector.icon
  color := textOr request.color connector.color
  description := request.description <|> connector.description
  schemaPaths := if request.schemaPaths.getD [] = [] then connector.schemaPaths
    else request.schemaPaths.getD []
  samplePayload := request.samplePayload.getD connector.samplePayload
  isActive := request.isActive.getD connector.isActive
  config := (request.config.map Value.dict).getD connector.config

/-- `Storage.update_connector`, of the row found: an absent field of the patch keeps the column. -/
def updateRow (patch : Patch) (row : Row C) : Row C :=
  { row with
    name := patch.name
    icon := patch.icon <|> row.icon
    color := patch.color <|> row.color
    description := patch.description <|> row.description
    schemaFields := patch.schemaPaths
    samplePayload := patch.samplePayload
    isActive := patch.isActive
    encryptedConfig := svc.encrypt patch.config }

def State.replaceRow (s : State C) (id : String) (row : Row C) : State C :=
  { s with rows := s.rows.map fun old => if old.publicId = id then row else old }

/-- The route `update_connector`. -/
def updateConnector (s : State C) (id : String) (request : UpdateRequest) : State C :=
  match s.find id with
  | none => s
  | some row =>
    let patch := patchOf request (connectorToDict svc false row)
    let s' := s.replaceRow id (updateRow svc patch row)
    match request.config with
    | none => s'
    | some config =>
      { s' with
        given := Function.update s.given id (supply svc.lower (s.given id) config)
        sent := s.sent ++ [config] }

/-- The route `delete_connector`. -/
def deleteConnector (s : State C) (id : String) : State C :=
  match s.find id with
  | none => s
  | some row =>
    if row.isActive then s else { s with rows := s.rows.filter fun row => row.publicId ≠ id }

/-- `record_error` of the route `test_connector`. -/
def connectorError (id message : String) (details : Dict) : ErrorEvent where
  scope := "connectors"
  stage := "connector_test"
  message := message
  entityType := "connector"
  entityId := id
  details := details

/-- The event that the route `test_connector` records, if any. -/
def testEvent (env : Environment) (id : String) (connector : Connector) : Option ErrorEvent :=
  match probeConnector svc env connector with
  | .error bad => some (connectorError id bad.reason [("code", .str bad.code)])
  | .ok probe =>
    if probe.passed then none
    else
      some (connectorError id (probe.outcome ++ ": " ++ probe.reason)
        [("outcome", .str probe.outcome),
          ("status", (probe.status.map fun code => .int code).getD .null)])

/-- The route `test_connector`. -/
def testConnector (s : State C) (env : Environment) (id : String) : State C :=
  match getConnector svc s id true with
  | none => s
  | some connector => { s with errors := s.errors ++ (testEvent svc env id connector).toList }

inductive Action
  | create (request : CreateRequest)
  | update (id : String) (request : UpdateRequest)
  | delete (id : String)
  | test (id : String) (env : Environment)

def step (s : State C) : Action → Option (State C)
  | .create request =>
    match makeId svc s request with
    | none => some s
    | some id => some (createConnector svc s id request)
  | .update id request => some (updateConnector svc s id request)
  | .delete id => some (deleteConnector s id)
  | .test id env => some (testConnector svc s env id)

/-! ### Credentials that survive -/

/-- The configuration that is written comes with real values: the one of the request holds no mask
    for a secret, and where the request has none, the one stored holds no secret. -/
def Real (s : State C) : Action → Prop
  | .create request => ∀ e ∈ secretEntries svc.lower (.dict request.config), e.2 ≠ mask
  | .update id request =>
    match request.config with
    | some config => ∀ e ∈ secretEntries svc.lower (.dict config), e.2 ≠ mask
    | none => ∀ row ∈ s.rows, row.publicId = id →
        secretEntries svc.lower (svc.decrypt row.encryptedConfig) = []
  | _ => True

/-- The row decrypts to the last real values supplied. -/
def RowKept (given : String → Path → Option Value) (row : Row C) : Prop :=
  ∀ path v, secretAt svc.lower (svc.decrypt row.encryptedConfig) path = some v →
    v ≠ mask ∧ given row.publicId path = some v

def Kept (s : State C) : Prop := ∀ row ∈ s.rows, RowKept svc s.given row

end Storage

section Proofs

variable {C : Type} {svc : Services C} {lower : String → String} {s s' : State C} {id : String}
  {config : Dict} {path : Path} {v : Value} {row : Row C}

mutual

theorem maskSecretValues_none : ∀ {v : Value}, secretEntries lower v = [] →
    maskSecretValues lower v = v
  | .dict kvs, h => by
    rw [secretEntries] at h
    rw [maskSecretValues, maskFields_none h]
  | .list vs, h => by
    rw [secretEntries] at h
    rw [maskSecretValues, maskItems_none h]
  | .null, _ | .bool _, _ | .int _, _ | .float _, _ | .inf _, _ | .str _, _ => rfl

theorem maskFields_none : ∀ {kvs : List (String × Value)}, secretFields lower kvs = [] →
    maskFields lower kvs = kvs
  | [], _ => rfl
  | (key, item) :: kvs, h => by
    rw [secretFields, List.append_eq_nil_iff] at h
    obtain ⟨hitem, hkvs⟩ := h
    cases hkey : isSecret lower key with
    | true =>
      rw [hkey] at hitem
      cases hitem
    | false =>
      rw [hkey] at hitem
      have hnone : secretEntries lower item = [] := List.map_eq_nil_iff.1 hitem
      rw [maskFields, maskFields_none hkvs, hkey, maskSecretValues_none hnone]
      rfl

theorem maskItems_none : ∀ {vs : List Value} {i : ℕ}, secretItems lower i vs = [] →
    maskItems lower vs = vs
  | [], _, _ => rfl
  | v :: vs, i, h => by
    rw [secretItems, List.append_eq_nil_iff] at h
    obtain ⟨hv, hvs⟩ := h
    have hnone : secretEntries lower v = [] := List.map_eq_nil_iff.1 hv
    rw [maskItems, maskItems_none hvs, maskSecretValues_none hnone]

end

theorem secretAt_mem (h : secretAt lower (.dict config) path = some v) :
    ∃ e ∈ secretEntries lower (.dict config), e.2 = v := by
  obtain ⟨e, he, rfl⟩ := Option.map_eq_some_iff.1 h
  exact ⟨e, List.mem_of_find?_eq_some he, rfl⟩

theorem supply_real (hreal : ∀ e ∈ secretEntries lower (.dict config), e.2 ≠ mask)
    (given : Path → Option Value) (h : secretAt lower (.dict config) path = some v) :
    v ≠ mask ∧ supply lower given config path = some v := by
  obtain ⟨e, he, rfl⟩ := secretAt_mem h
  refine ⟨hreal e he, ?_⟩
  rw [supply, h]
  exact if_neg (hreal e he)

theorem State.find_mem (h : s.find id = some row) : row ∈ s.rows ∧ row.publicId = id :=
  ⟨List.mem_of_find?_eq_some h, by simpa using List.find?_some h⟩

theorem State.find_none (h : s.find id = none) : ∀ row ∈ s.rows, row.publicId ≠ id := by
  intro row hrow
  have hne := List.find?_eq_none.1 h row hrow
  simpa using hne

theorem RowKept.other {given : String → Path → Option Value} (h : RowKept svc given row)
    (hid : row.publicId ≠ id) (next : Path → Option Value) :
    RowKept svc (Function.update given id next) row := by
  intro path v hv
  rw [Function.update_of_ne hid]
  exact h path v hv

theorem createConnector_kept (hcrypto : ∀ c, svc.decrypt (svc.encrypt c) = c) (h : Kept svc s)
    {request : CreateRequest} (hreal : Real svc s (.create request)) (id : String) :
    Kept svc (createConnector svc s id request) := by
  unfold createConnector
  split
  · exact h
  · rename_i hfree
    have hnone : s.find id = none := by simpa using hfree
    intro row hrow
    rcases List.mem_append.1 hrow with hold | hnew
    · exact (h row hold).other (State.find_none hnone row hold) _
    · rw [List.mem_singleton.1 hnew]
      intro path v hv
      rw [hcrypto] at hv
      show v ≠ mask ∧ Function.update s.given id _ id path = some v
      rw [Function.update_self]
      exact supply_real hreal _ hv

theorem mem_replaceRow {new : Row C} (h : row ∈ (s.replaceRow id new).rows) :
    row = new ∨ row ∈ s.rows ∧ row.publicId ≠ id := by
  obtain ⟨old, hold, rfl⟩ := List.mem_map.1 h
  grind

theorem updateConnector_kept (hcrypto : ∀ c, svc.decrypt (svc.encrypt c) = c) (h : Kept svc s)
    {request : UpdateRequest} (hreal : Real svc s (.update id request)) :
    Kept svc (updateConnector svc s id request) := by
  unfold updateConnector
  split
  · exact h
  · rename_i old hfind
    obtain ⟨hold, rfl⟩ := State.find_mem hfind
    cases hconfig : request.config with
    | none =>
      -- The masked configuration is written: it is the one stored, which has no secrets.
      have hnone : secretEntries svc.lower (svc.decrypt old.encryptedConfig) = [] := by
        simp only [Real, hconfig] at hreal
        exact hreal old hold rfl
      intro row hrow
      rcases mem_replaceRow hrow with rfl | ⟨hrow, _⟩
      · intro path v hv
        have hwritten : secretEntries svc.lower (svc.decrypt
            (updateRow svc (patchOf request (connectorToDict svc false old)) old).encryptedConfig) =
            [] := by
          rw [updateRow, hcrypto, patchOf, hconfig]
          show secretEntries svc.lower (maskSecretValues svc.lower _) = []
          rw [maskSecretValues_none hnone, hnone]
        rw [secretAt, hwritten] at hv
        cases hv
      · exact h row hrow
    | some config =>
      have hvalues : ∀ e ∈ secretEntries svc.lower (.dict config), e.2 ≠ mask := by
        simpa only [Real, hconfig] using hreal
      intro row hrow
      rcases mem_replaceRow hrow with rfl | ⟨hrow, hid⟩
      · intro path v hv
        have hwritten : svc.decrypt
            (updateRow svc (patchOf request (connectorToDict svc false old)) old).encryptedConfig =
            .dict config := by
          rw [updateRow, hcrypto, patchOf, hconfig]
          rfl
        rw [hwritten] at hv
        show v ≠ mask ∧ Function.update s.given old.publicId _ old.publicId path = some v
        rw [Function.update_self]
        exact supply_real hvalues _ hv
      · exact (h row hrow).other hid _

theorem step_kept (hcrypto : ∀ c, svc.decrypt (svc.encrypt c) = c) {a : Action} (h : Kept svc s)
    (hreal : Real svc s a) (hstep : step svc s a = some s') : Kept svc s' := by
  cases a with
  | create request =>
    simp only [step] at hstep
    split at hstep
    · obtain rfl := Option.some.inj hstep
      exact h
    · rename_i id _
      obtain rfl := Option.some.inj hstep
      exact createConnector_kept hcrypto h hreal id
  | update id request =>
    obtain rfl := Option.some.inj hstep
    exact updateConnector_kept hcrypto h hreal
  | delete id =>
    obtain rfl := Option.some.inj hstep
    unfold deleteConnector
    split
    · exact h
    · split
      · exact h
      · exact fun row hrow => h row (List.mem_of_mem_filter hrow)
  | test id env =>
    obtain rfl := Option.some.inj hstep
    unfold testConnector
    split
    · exact h
    · exact h

/-- **Editing keeps the credentials** as long as every configuration that is written comes with
    real values: each secret that a connector decrypts to is the last real value that a request has
    supplied for it, and the mask is none of them. -/
theorem credentials_kept (hcrypto : ∀ c, svc.decrypt (svc.encrypt c) = c)
    (hrun : Reach (step svc) (Real svc) State.init s) (hrow : row ∈ s.rows)
    (hv : secretAt svc.lower (svc.decrypt row.encryptedConfig) path = some v) :
    v ≠ mask ∧ s.given row.publicId path = some v := by
  have hkept : Kept svc s :=
    hrun.invariant (fun _ hrow => absurd hrow List.not_mem_nil)
      fun _ _ _ h hreal hstep => step_kept hcrypto h hreal hstep
  exact hkept row hrow path v hv

end Proofs

/-! ### Two runs -/

/-- An encryption that keeps the value, on texts in lower case. -/
def plainServices : Services Value where
  lower text := text
  slugify text := text
  encrypt config := config
  decrypt config := config

def crm : CreateRequest where
  id := none
  name := "crm"
  icon := none
  color := none
  description := none
  schemaPaths := []
  samplePayload := []
  isActive := true
  config := [("base_url", .str "https://crm.test"), ("api_key", .str "s3cret")]

def renamed (config : Option Dict) : UpdateRequest where
  name := some "crm2"
  icon := none
  color := none
  description := none
  schemaPaths := none
  samplePayload := none
  isActive := none
  config := config

theorem url_no_secret : isSecret id "base_url" = false := by decide

theorem api_key_secret : isSecret id "api_key" = true := by decide

theorem entries_crm (url : String) (key : Value) :
    secretEntries id (.dict [("base_url", .str url), ("api_key", key)]) =
      [([.inl "api_key"], key)] := by
  simp [secretEntries, secretFields, url_no_secret, api_key_secret]

theorem secretAt_crm (url : String) (key : Value) :
    secretAt id (.dict [("base_url", .str url), ("api_key", key)]) [.inl "api_key"] = some key := by
  simp [secretAt, entries_crm]

theorem masked_crm (url : String) (key : Value) :
    maskSecretValues id (.dict [("base_url", .str url), ("api_key", key)]) =
      .dict [("base_url", .str url), ("api_key", mask)] := by
  simp [maskSecretValues, maskFields, url_no_secret, api_key_secret]

/-- A new URL and a new key, the name and the key in one request. -/
def rotated : Dict := [("base_url", .str "https://crm2.test"), ("api_key", .str "n3w")]

theorem rotation_kept :
    ∃ s : State Value, ∃ row ∈ s.rows, row.name = "crm2" ∧
      secretAt id row.encryptedConfig [.inl "api_key"] = some (.str "n3w") ∧
      s.given "crm" [.inl "api_key"] = some (.str "n3w") := by
  obtain ⟨s, hs⟩ : ∃ s, exec (step plainServices) State.init
      [.create crm, .update "crm" (renamed (some rotated))] = some s := ⟨_, rfl⟩
  have hreal : Along (step plainServices) (Real plainServices) State.init
      [.create crm, .update "crm" (renamed (some rotated))] := by
    refine .cons ?_ rfl (.cons ?_ rfl trivial)
    · intro e he
      have he' : e ∈ [([.inl "api_key"], Value.str "s3cret")] := by
        rw [← entries_crm "https://crm.test"]
        exact he
      rw [List.mem_singleton.1 he']
      decide
    · intro e he
      have he' : e ∈ [([.inl "api_key"], Value.str "n3w")] := by
        rw [← entries_crm "https://crm2.test"]
        exact he
      rw [List.mem_singleton.1 he']
      decide
  have hrun := reach_exec hs hreal
  cases hs
  have hsecret := secretAt_crm "https://crm2.test" (.str "n3w")
  exact ⟨_, _, List.mem_singleton_self _, rfl, hsecret,
    (credentials_kept (fun _ => rfl) hrun (List.mem_singleton_self _) hsecret).2⟩

/-- **The mask is stored** by an update of the name alone. -/
theorem rename_stores_mask :
    ∃ s : State Value, Reachable (step plainServices) State.init s ∧ ∃ row ∈ s.rows,
      row.publicId = "crm" ∧ secretAt id row.encryptedConfig [.inl "api_key"] = some mask ∧
      supply id (fun _ => none) crm.config [.inl "api_key"] = some (.str "s3cret") ∧
      s.given "crm" = supply id (fun _ => none) crm.config := by
  have hmasked := masked_crm "https://crm.test" (.str "s3cret")
  have hsupplied : supply id (fun _ => none) crm.config [.inl "api_key"] =
      some (.str "s3cret") := by
    rw [supply, crm, secretAt_crm]
    exact if_neg (by decide)
  refine ⟨_, reachable_exec (show exec _ _ [.create crm, .update "crm" (renamed none)] = some _
    from rfl), _, List.mem_singleton_self _, rfl, ?_, hsupplied, rfl⟩
  show secretAt id (maskSecretValues id (.dict crm.config)) _ = _
  rw [crm, hmasked, secretAt_crm]

end RuleMind.Connectors
