/-
  Redaction of stored decisions: `redact_payload` of `app/logic.py`, and what the five writers
  of the decisions table hand to the store.

  A redaction goes by names of fields and by the look of values (`Config`).  The store keeps a
  payload as it gets it; each writer redacts with what it knows, or not at all.
-/
import RuleMind.ExecutionContext
import RuleMind.DeviceIngest

namespace RuleMind.Redaction

/-! ### Redaction -/

def REDACTION_PLACEHOLDER : Value := .str "***"

/-- What a redaction goes by: the names it covers (`_key_is_redacted`) and the values that it
    takes for sensitive (`value_is_sensitive`). -/
structure Config where
  covers : String → Bool
  sensitive : Value → Bool
  placeholder : sensitive REDACTION_PLACEHOLDER = false
  dict : ∀ kvs, sensitive (.dict kvs) = false
  list : ∀ vs, sensitive (.list vs) = false

def Config.none : Config where
  covers _ := false
  sensitive _ := false
  placeholder := rfl
  dict _ := rfl
  list _ := rfl

section Redact
variable (c : Config)

mutual

def redactWith : Value → Value
  | .dict kvs => .dict (redactFields kvs)
  | .list vs => .list (redactItems vs)
  | v => if c.sensitive v then REDACTION_PLACEHOLDER else v

def redactFields : List (String × Value) → List (String × Value)
  | [] => []
  | (key, v) :: kvs =>
    (key, if c.covers key then REDACTION_PLACEHOLDER else redactWith v) :: redactFields kvs

def redactItems : List Value → List Value
  | [] => []
  | v :: vs => redactWith v :: redactItems vs

end

end Redact

/-- Something that `wanted` redacts is left by `used`. -/
inductive Exposed (used wanted : Config) : Value → Prop
  | scalar {v : Value} (hwanted : wanted.sensitive v = true) (hused : used.sensitive v = false) :
      Exposed used wanted v
  | named {kvs : List (String × Value)} {key : String} {v : Value} (hmem : (key, v) ∈ kvs)
      (hwanted : wanted.covers key = true) (hused : used.covers key = false)
      (hv : v ≠ REDACTION_PLACEHOLDER) (hsensitive : used.sensitive v = false) :
      Exposed used wanted (.dict kvs)
  | field {kvs : List (String × Value)} {key : String} {v : Value} (hmem : (key, v) ∈ kvs)
      (hwanted : wanted.covers key = false) (hused : used.covers key = false)
      (h : Exposed used wanted v) : Exposed used wanted (.dict kvs)
  | item {vs : List Value} {v : Value} (hmem : v ∈ vs) (h : Exposed used wanted v) :
      Exposed used wanted (.list vs)

variable {used wanted : Config}

theorem not_exposed_self (c : Config) (v : Value) : ¬ Exposed c c v := by
  intro h
  induction h with
  | scalar hwanted hused =>
    rw [hwanted] at hused
    cases hused
  | named _ hwanted hused =>
    rw [hwanted] at hused
    cases hused
  | field _ _ _ _ ih => exact ih
  | item _ _ ih => exact ih

theorem redactWith_eq_placeholder {c : Config} {v : Value} :
    redactWith c v = REDACTION_PLACEHOLDER ↔ v = REDACTION_PLACEHOLDER ∨ c.sensitive v = true := by
  have hscalar : ∀ w : Value, (if c.sensitive w then REDACTION_PLACEHOLDER else w) =
      REDACTION_PLACEHOLDER ↔ w = REDACTION_PLACEHOLDER ∨ c.sensitive w = true := by
    intro w
    by_cases hw : c.sensitive w = true
    · simp [hw]
    · simp [hw]
  cases v with
  | dict kvs => simp [redactWith, REDACTION_PLACEHOLDER, c.dict]
  | list vs => simp [redactWith, REDACTION_PLACEHOLDER, c.list]
  | null => exact hscalar _
  | bool b => exact hscalar _
  | int n => exact hscalar _
  | float q => exact hscalar _
  | inf neg => exact hscalar _
  | str s => exact hscalar _

theorem exposed_dict {kvs : List (String × Value)} :
    Exposed used wanted (.dict kvs) ↔ ∃ kv ∈ kvs, used.covers kv.1 = false ∧
      (if wanted.covers kv.1 then ¬ redactWith used kv.2 = REDACTION_PLACEHOLDER
        else Exposed used wanted kv.2) := by
  constructor
  · intro h
    cases h with
    | scalar hwanted _ =>
      rw [wanted.dict] at hwanted
      cases hwanted
    | named hmem hwanted hused hv hsensitive =>
      refine ⟨_, hmem, hused, ?_⟩
      simp_all [redactWith_eq_placeholder]
    | field hmem hwanted hused h => grind
  · rintro ⟨⟨key, v⟩, hmem, hused, h⟩
    split at h
    · rw [redactWith_eq_placeholder, not_or, Bool.not_eq_true] at h
      exact .named hmem ‹_› hused h.1 h.2
    · exact .field hmem (by simpa using ‹¬ wanted.covers key = true›) hused h

theorem exposed_list {vs : List Value} :
    Exposed used wanted (.list vs) ↔ ∃ v ∈ vs, Exposed used wanted v := by
  constructor
  · intro h
    cases h with
    | scalar hwanted _ =>
      rw [wanted.list] at hwanted
      cases hwanted
    | item hmem h => exact ⟨_, hmem, h⟩
  · rintro ⟨v, hmem, h⟩
    exact .item hmem h

theorem redactWith_scalar {v : Value} (hdict : ∀ kvs, v ≠ .dict kvs) (hlist : ∀ vs, v ≠ .list vs)
    (c : Config) : redactWith c v = if c.sensitive v then REDACTION_PLACEHOLDER else v := by
  cases v with
  | dict kvs => exact absurd rfl (hdict kvs)
  | list vs => exact absurd rfl (hlist vs)
  | null => rfl
  | bool b => rfl
  | int n => rfl
  | float q => rfl
  | inf neg => rfl
  | str s => rfl

theorem redactWith_placeholder (c : Config) :
    redactWith c REDACTION_PLACEHOLDER = REDACTION_PLACEHOLDER :=
  redactWith_eq_placeholder.2 (.inl rfl)

theorem again_scalar {v : Value} (hdict : ∀ kvs, v ≠ .dict kvs) (hlist : ∀ vs, v ≠ .list vs) :
    redactWith wanted (redactWith used v) = redactWith used v ↔ ¬ Exposed used wanted v := by
  rw [redactWith_scalar hdict hlist used]
  split
  · rw [redactWith_placeholder]
    refine iff_of_true rfl fun h => ?_
    cases h with
    | scalar _ hused => exact absurd hused (by simp [*])
    | named => exact hdict _ rfl
    | field => exact hdict _ rfl
    | item => exact hlist _ rfl
  · have hused : used.sensitive v = false := by simpa using ‹¬ used.sensitive v = true›
    rw [redactWith_scalar hdict hlist wanted]
    split
    · have hwanted : wanted.sensitive v = true := ‹_›
      constructor
      · intro h
        rw [← h, wanted.placeholder] at hwanted
        cases hwanted
      · intro h
        exact absurd (.scalar hwanted hused) h
    · refine iff_of_true rfl fun h => ?_
      cases h with
      | scalar hwanted => exact absurd hwanted ‹_›
      | named => exact hdict _ rfl
      | field => exact hdict _ rfl
      | item => exact hlist _ rfl

mutual

/-- **One redaction after another.**  The second one finds nothing exactly if nothing that it
    redacts is left by the first. -/
theorem redactWith_redactWith (used wanted : Config) (v : Value) :
    redactWith wanted (redactWith used v) = redactWith used v ↔ ¬ Exposed used wanted v := by
  match v with
  | .dict kvs =>
    rw [exposed_dict]
    show Value.dict _ = Value.dict _ ↔ _
    rw [Value.dict.injEq, redactFields_redactFields]
    constructor
    · rintro h ⟨kv, hmem, hused, hexposed⟩
      exact h kv hmem hused hexposed
    · intro h kv hmem hused hexposed
      exact h ⟨kv, hmem, hused, hexposed⟩
  | .list vs =>
    rw [exposed_list]
    show Value.list _ = Value.list _ ↔ _
    rw [Value.list.injEq, redactItems_redactItems]
    simp
  | .null => simp [again_scalar]
  | .bool b => simp [again_scalar]
  | .int n => simp [again_scalar]
  | .float q => simp [again_scalar]
  | .inf neg => simp [again_scalar]
  | .str s => simp [again_scalar]

theorem redactFields_redactFields (used wanted : Config) (kvs : List (String × Value)) :
    redactFields wanted (redactFields used kvs) = redactFields used kvs ↔
      ∀ kv ∈ kvs, used.covers kv.1 = false →
        ¬ (if wanted.covers kv.1 then ¬ redactWith used kv.2 = REDACTION_PLACEHOLDER
          else Exposed used wanted kv.2) := by
  match kvs with
  | [] => simp [redactFields]
  | (key, v) :: kvs =>
    rw [redactFields, redactFields, List.cons.injEq, redactFields_redactFields used wanted kvs,
      List.forall_mem_cons, Prod.mk.injEq]
    refine and_congr ?_ Iff.rfl
    by_cases hused : used.covers key = true
    · simp [hused, redactWith_placeholder]
    · by_cases hwanted : wanted.covers key = true
      · simp [hused, hwanted, eq_comm]
      · simp [hused, hwanted, redactWith_redactWith used wanted v]

theorem redactItems_redactItems (used wanted : Config) (vs : List Value) :
    redactItems wanted (redactItems used vs) = redactItems used vs ↔
      ∀ v ∈ vs, ¬ Exposed used wanted v := by
  match vs with
  | [] => simp [redactItems]
  | v :: vs =>
    rw [redactItems, redactItems, List.cons.injEq, redactWith_redactWith used wanted v,
      redactItems_redactItems used wanted vs, List.forall_mem_cons]

end

theorem redactWith_idem (c : Config) (v : Value) : redactWith c (redactWith c v) = redactWith c v :=
  (redactWith_redactWith c c v).2 (not_exposed_self c v)

mutual

theorem redactWith_none (v : Value) : redactWith .none v = v := by
  match v with
  | .dict kvs => exact congrArg Value.dict (redactFields_none kvs)
  | .list vs => exact congrArg Value.list (redactItems_none vs)
  | .null | .bool _ | .int _ | .float _ | .inf _ | .str _ => rfl

theorem redactFields_none (kvs : List (String × Value)) : redactFields .none kvs = kvs := by
  match kvs with
  | [] => rfl
  | (key, v) :: kvs =>
    rw [redactFields, redactFields_none kvs, redactWith_none v]
    rfl

theorem redactItems_none (vs : List Value) : redactItems .none vs = vs := by
  match vs with
  | [] => rfl
  | v :: vs => rw [redactItems, redactItems_none vs, redactWith_none v]

end

/-! ### Names and values -/

/-- `REDACTED_KEYS`. -/
def REDACTED_KEYS : List String :=
  ["name", "email", "email_address", "phone", "phone_number", "mobile_number",
    "telephoneNumber", "idNumber", "pan", "aadhaar", "address", "line1", "line2", "card_number",
    "cvv", "cvc", "account_number", "bank_account", "routing_number", "sort_code", "iban",
    "swift_code", "upi_id", "ssn", "sin", "nino", "tax_id", "passport", "passport_number",
    "national_id", "drivers_license", "driving_licence", "voter_id", "mrn",
    "medical_record_number", "health_id", "insurance_id", "patient_id", "dob", "date_of_birth",
    "birth_date"]

/-- `REDACTED_KEY_TOKENS`. -/
def REDACTED_KEY_TOKENS : List String :=
  ["email", "emailaddress", "phone", "phonenumber", "mobilenumber", "telephonenumber",
    "address", "pan", "aadhaar", "idnumber", "cardnumber", "cvv", "cvc", "accountnumber",
    "bankaccount", "routingnumber", "sortcode", "iban", "swiftcode", "upiid", "ssn", "nino",
    "taxid", "passport", "passportnumber", "nationalid", "driverslicense", "drivinglicence",
    "voterid", "mrn", "medicalrecordnumber", "healthid", "insuranceid", "patientid", "dob",
    "dateofbirth", "birthdate"]

/-- `_MAX_KEY_TOKENS`. -/
def MAX_KEY_TOKENS : ℕ := 3

/-- `VALUE_SCAN_MODES`. -/
inductive ScanMode
  | off
  | strict
  | aggressive
  deriving DecidableEq

structure Env where
  /-- `RULEMIND_PII_REDACT_KEYS`. -/
  redactKeys : String
  /-- `RULEMIND_PII_VALUE_SCAN`. -/
  valueScan : String
  /-- `RULEMIND_PII_KEY_MATCH`. -/
  keyMatch : String

def strip (s : String) : String := String.ofList (pyStrip s.toList)

/-- `_CAMEL_BOUNDARY.sub(" ", key)`. -/
def camelSpaced : List Char → List Char
  | c :: d :: cs =>
    if (c.isLower || c.isDigit) && d.isUpper then c :: ' ' :: camelSpaced (d :: cs)
    else c :: camelSpaced (d :: cs)
  | cs => cs

def keyTokens (key : String) : List String :=
  (((camelSpaced key.toList).splitOnP fun c => !c.isAlphanum).filter (· ≠ [])).map fun part =>
    lower (String.ofList part)

def luhnSum (parity : ℕ) : ℕ → List Char → ℤ
  | _, [] => 0
  | index, c :: cs =>
    let digit : ℤ := c.toNat - 48
    let doubled := if digit * 2 > 9 then digit * 2 - 9 else digit * 2
    (if index % 2 = parity then doubled else digit) + luhnSum parity (index + 1) cs

def luhnOk (digits : List Char) : Bool := luhnSum (digits.length % 2) 0 digits % 10 = 0

def hasCardIssuerPrefix (digits : List Char) : Bool :=
  let two := String.ofList (digits.take 2)
  let three := String.ofList (digits.take 3)
  digits.head? = some '4' ||
    two ∈ ["51", "52", "53", "54", "55"] ||
    ("22" ≤ two && two ≤ "27") ||
    two ∈ ["34", "37"] ||
    two ∈ ["30", "36", "38", "39"] ||
    two = "35" ||
    two = "65" || String.ofList (digits.take 4) = "6011" || ("644" ≤ three && three ≤ "649")

section Scan
-- `strLower` is `str.lower`
variable (py : PyText) (strLower : String → String)

def normalizeRedactKey (key : String) : String :=
  String.ofList ((strLower key).toList.filter fun c => c.isLower || c.isDigit)

def valueScanMode (env : Env) : ScanMode :=
  let raw := strLower (strip env.valueScan)
  if raw = "off" then .off else if raw = "aggressive" then .aggressive else .strict

/-- `_key_match_mode() == "exact"`. -/
def exactKeys (env : Env) : Bool := strLower (strip env.keyMatch) = "exact"

/-- What `\d` matches. -/
def isDecimal (c : Char) : Bool := c.isDigit || (py.decimal c).isSome

/-- `^\d+$`, which a line break at the end does not hinder. -/
def digitRun (cs : List Char) : Bool :=
  let digits := if cs.getLast? = some '\n' then cs.dropLast else cs
  !digits.isEmpty && digits.all (isDecimal py)

def looksLikeCardNumber (text : List Char) (requireIssuer : Bool) : Bool :=
  let digits := text.filter fun c => c ≠ ' ' && c ≠ '-'
  13 ≤ digits.length && digits.length ≤ 19 && digitRun py digits &&
    (!requireIssuer || hasCardIssuerPrefix digits) && luhnOk digits

/-- `_SSN_RE`, and the ranges that are issued. -/
def looksLikeSsn (text : List Char) : Bool :=
  match pyStrip text with
  | [a₁, a₂, a₃, s, g₁, g₂, t, n₁, n₂, n₃, n₄] =>
    [a₁, a₂, a₃, g₁, g₂, n₁, n₂, n₃, n₄].all (isDecimal py) &&
      s ∈ ['-', ' '] && t ∈ ['-', ' '] &&
      [a₁, a₂, a₃] ≠ ['0', '0', '0'] && [a₁, a₂, a₃] ≠ ['6', '6', '6'] && a₁ ≠ '9' &&
      [g₁, g₂] ≠ ['0', '0'] && [n₁, n₂, n₃, n₄] ≠ ['0', '0', '0', '0']
  | _ => false

/-- `_IBAN_RE`, and the check digits. -/
def looksLikeIban (text : List Char) : Bool :=
  match pyStrip (text.filter (· ≠ ' ')) with
  | a :: b :: c :: d :: rest =>
    let numeric := ((rest ++ [a, b, c, d]).map Char.toUpper).flatMap fun c =>
      if c.isAlpha then (c.toNat - 55).repr.toList else [c]
    a.isAlpha && b.isAlpha && isDecimal py c && isDecimal py d && rest.all Char.isAlphanum &&
      11 ≤ rest.length && rest.length ≤ 30 && (py.int (String.ofList numeric)).any (· % 97 = 1)
  | _ => false

def textIsSensitive (text : List Char) (mode : ScanMode) : Bool :=
  9 ≤ text.length && text.length ≤ 42 &&
    (looksLikeCardNumber py text (mode ≠ .aggressive) || looksLikeSsn py text ||
      looksLikeIban py text)

def valueIsSensitive (mode : ScanMode) : Value → Bool
  | .int n => mode = .aggressive && textIsSensitive py n.natAbs.repr.toList mode
  | .str s => mode ≠ .off && textIsSensitive py (pyStrip s.toList) mode
  | _ => false

def keyIsRedacted (keys tokens : List String) (key : String) : Bool :=
  let parts := keyTokens key
  normalizeRedactKey strLower key ∈ keys ||
    (List.range (min MAX_KEY_TOKENS parts.length)).any fun window =>
      String.join (parts.drop (parts.length - (window + 1))) ∈ tokens

/-- The names that stand for something after normalisation. -/
def normalized (names : List String) : List String :=
  ((names.filter fun k => strip k ≠ "").map (normalizeRedactKey strLower)).filter (· ≠ "")

def redactKeys (env : Env) : List String :=
  REDACTED_KEYS.map (normalizeRedactKey strLower) ++
    normalized strLower ((env.redactKeys.toList.splitOn ',').map String.ofList)

theorem textIsSensitive_placeholder (mode : ScanMode) :
    textIsSensitive py (pyStrip "***".toList) mode = false := rfl

theorem valueIsSensitive_placeholder (mode : ScanMode) :
    valueIsSensitive py mode REDACTION_PLACEHOLDER = false := by
  show (_ && textIsSensitive py (pyStrip "***".toList) mode) = false
  rw [textIsSensitive_placeholder, Bool.and_false]

/-- What `redact_payload` goes by, with a workspace's keys. -/
def configOf (env : Env) (extraKeys : List String) : Config where
  covers := keyIsRedacted strLower (redactKeys strLower env ++ normalized strLower extraKeys)
    (if exactKeys strLower env then []
      else REDACTED_KEY_TOKENS.map (normalizeRedactKey strLower) ++ normalized strLower extraKeys)
  sensitive := valueIsSensitive py (valueScanMode strLower env)
  placeholder := valueIsSensitive_placeholder py _
  dict _ := rfl
  list _ := rfl

def redactPayload (env : Env) (extraKeys : List String) (v : Value) : Value :=
  redactWith (configOf py strLower env extraKeys) v

end Scan

/-! ### The writers -/

/-- What a workspace's settings and the store's cache hold about its keys. -/
structure Workspace where
  engineConfig : Dict
  /-- An entry of `_pii_keys_cache`: the keys, and when they expire. -/
  cache : Option (List String × ℚ)

section Keys
variable (py : PyText)

/-- What iterating a value gives, as texts; nothing where it raises. -/
def iterated : Value → Option (List String)
  | .list vs => some (vs.map py.str)
  | .str s => some (s.toList.map fun c => String.ofList [c])
  | .dict kvs => some (kvs.map Prod.fst)
  | _ => none

def Workspace.keys (ws : Workspace) : Option (List String) :=
  (iterated py (Value.orElse (ws.engineConfig.lookup "pii_redact_keys") (.list []))).map
    fun keys => keys.filter fun k => strip k ≠ ""

def tenantPiiRedactKeys (ws : Workspace) (now : ℚ) : Option (List String) :=
  match ws.cache with
  | some (keys, expires) => if now < expires then some keys else ws.keys py
  | none => ws.keys py

end Keys

/-- What `fast_decide` hands to its `_log_decision`. -/
structure FastDecision where
  policyId : Value
  ruleResults : Value
  scorecardResult : Value
  trace : Value
  outcome : Value
  latencyMs : ℚ

/-- `SdkExecutionSyncRequest`, as far as `maybe_create_sdk_decision` reads it. -/
structure SdkSync where
  policyId : String
  payload : Dict
  outcome : String
  status : String
  vars : Dict
  ruleResults : List Dict
  scorecardResults : Dict
  trace : List Dict
  experimentVariant : Option String
  latencyMs : ℤ
  sdkVersion : Option String
  source : String

/-- What a shadow run needs of the store and the engine. -/
structure ShadowHost where
  /-- `get_policy` finds the candidate. -/
  policy : Value → Bool
  /-- `fast_decide` on the candidate: its outcome and its values, where it does not raise. -/
  decide : Value → Value → Option (Value × Value)

/-- A write of one decision, by one of the five ways in. -/
inductive Write
  | executor (ctx : ExecutionContext) (id source : String) (sdkVersion variant : Option String)
  /-- The payload is the resolved one. -/
  | fast (decision : FastDecision) (id tenantId now : String) (payload : Value) (values : Value)
      (userId : Option String)
  | shadow (host : ShadowHost) (id livePolicyId : String) (payload : Value) (liveOutcome : Value)
  /-- A record of a batch that is inserted. -/
  | device (record : Dict)
  /-- `existing` is the status of the execution so far. -/
  | sdk (request : SdkSync) (id tenantId : String) (existing : Option String)

/-- `payload.get("client_id") or payload.get("clientId")`. -/
def clientIdIn : Value → Value
  | .dict kvs => Ingest.either kvs "client_id" "clientId"
  | _ => .null

def shadowTarget (engineConfig : Dict) (livePolicyId : String) : Value :=
  (((engineConfig.lookup "shadow_map").getD (.dict [])).field livePolicyId).getD .null

def normalizeSdkRuleResult (item : Dict) : Dict :=
  let ruleId := Ingest.either item "ruleId" "rule_id"
  if ruleId.isNull then item else setKey (setKey item "ruleId" ruleId) "rule_id" ruleId

section Records
variable (py : PyText) (strLower : String → String) (env : Env)

/-- `PolicyExecutor._log_decision`. -/
def executorRecord (keys : List String) (ctx : ExecutionContext) (id source : String)
    (sdkVersion variant : Option String) : Dict :=
  [("tenant_id", .str ctx.tenantId), ("id", .str id), ("client_id", clientIdIn ctx.payload),
    ("user_id", ctx.userId), ("policy_id", .str ctx.policyId),
    ("payload", redactPayload py strLower env keys ctx.payload),
    ("computed_variables", .dict ctx.vars), ("rule_results", .list ctx.ruleResults),
    ("scorecard_result", (ctx.scorecardResults.head?.map Prod.snd).getD .null),
    ("trace", .list ctx.stepTrace),
    ("outcome", .str (if ctx.outcome ≠ "pending" then ctx.outcome else "review")),
    ("latency_ms", .int ctx.totalLatencyMs), ("source", .str source),
    ("sdk_version", optStr sdkVersion), ("experiment_id", optStr ctx.experimentId),
    ("experiment_variant", optStr variant)]

/-- `_log_decision` of the fast path. -/
def fastRecord (keys : List String) (decision : FastDecision) (id tenantId now : String)
    (payload values : Value) (userId : Option String) : Dict :=
  [("id", .str id), ("tenant_id", .str tenantId), ("policy_id", decision.policyId),
    ("client_id", clientIdIn payload), ("user_id", optStr userId),
    ("payload", redactPayload py strLower env keys payload), ("computed_variables", values),
    ("rule_results", decision.ruleResults), ("scorecard_result", decision.scorecardResult),
    ("trace", decision.trace), ("outcome", decision.outcome),
    ("latency_ms", .int (Int.tdiv decision.latencyMs.num decision.latencyMs.den)),
    ("source", .str "api_fast"), ("created_at", .str now)]

/-- `run_shadow`: nothing where there is no candidate, or something raises. -/
def shadowRecord (engineConfig : Dict) (host : ShadowHost) (id livePolicyId : String)
    (payload liveOutcome : Value) : Option Dict :=
  let candidateId := shadowTarget engineConfig livePolicyId
  if candidateId.truthy && host.policy candidateId then
    (host.decide candidateId payload).map fun (outcome, values) =>
      [("id", .str id), ("policy_id", candidateId), ("payload", payload),
        ("computed_variables", values), ("outcome", outcome), ("source", .str "shadow"),
        ("trace", .list [.dict [("shadow_of", .str livePolicyId), ("live_outcome", liveOutcome),
          ("diverged", .bool (outcome ≠ liveOutcome))]])]
  else none

def finished (status : String) : Bool := status ∈ ["completed", "failed"]

/-- `maybe_create_sdk_decision`. -/
def sdkRecord (request : SdkSync) (id tenantId : String) (existing : Option String) : Option Dict :=
  if !finished request.status || existing.any finished then none
  else some
    [("tenant_id", .str tenantId), ("id", .str id), ("policy_id", .str request.policyId),
      ("payload", redactPayload py strLower env [] (.dict request.payload)),
      ("computed_variables", .dict request.vars),
      ("rule_results", .list (request.ruleResults.map fun item =>
        .dict (normalizeSdkRuleResult item))),
      ("scorecard_result", (request.scorecardResults.head?.map Prod.snd).getD .null),
      ("trace", .list (request.trace.map Value.dict)),
      ("outcome", .str (if request.outcome ≠ "pending" then request.outcome else "review")),
      ("latency_ms", .int request.latencyMs), ("source", .str request.source),
      ("sdk_version", optStr request.sdkVersion),
      ("experiment_variant", optStr request.experimentVariant)]

variable (ws : Workspace) (now : ℚ)

def Write.record : Write → Option Dict
  | .executor ctx id source sdkVersion variant =>
    (tenantPiiRedactKeys py ws now).map fun keys =>
      executorRecord py strLower env keys ctx id source sdkVersion variant
  | .fast decision id tenantId created payload values userId =>
    (tenantPiiRedactKeys py ws now).map fun keys =>
      fastRecord py strLower env keys decision id tenantId created payload values userId
  | .shadow host id livePolicyId payload liveOutcome =>
    shadowRecord ws.engineConfig host id livePolicyId payload liveOutcome
  | .device record => some record
  | .sdk request id tenantId existing => sdkRecord py strLower env request id tenantId existing

/-- `payload_preview` of the row that `add_decision` or `add_decisions_batch` makes of a record,
    as it decrypts. -/
def payloadPreview (record : Dict) : Value := (record.lookup "payload").getD (.dict [])

def Write.stored (w : Write) : Option Value := (w.record py strLower env ws now).map payloadPreview

def Write.payload : Write → Value
  | .executor ctx _ _ _ _ => ctx.payload
  | .fast _ _ _ _ payload _ _ => payload
  | .shadow _ _ _ payload _ => payload
  | .device record => payloadPreview record
  | .sdk request _ _ _ => .dict request.payload

def Write.redaction : Write → Config
  | .executor .. | .fast .. => configOf py strLower env ((tenantPiiRedactKeys py ws now).getD [])
  | .shadow .. | .device _ => .none
  | .sdk .. => configOf py strLower env []

theorem Write.stored_eq {w : Write} {p : Value} (h : w.stored py strLower env ws now = some p) :
    p = redactWith (w.redaction py strLower env ws now) w.payload := by
  obtain ⟨record, hrecord, rfl⟩ := Option.map_eq_some_iff.1 h
  cases w with
  | executor _ _ _ _ _ | fast _ _ _ _ _ _ _ =>
    obtain ⟨keys, hkeys, rfl⟩ := Option.map_eq_some_iff.1 hrecord
    rw [redaction, hkeys]
    rfl
  | shadow host id livePolicyId payload liveOutcome =>
    rw [Write.record, shadowRecord] at hrecord
    split at hrecord
    · obtain ⟨⟨outcome, values⟩, -, rfl⟩ := Option.map_eq_some_iff.1 hrecord
      exact (redactWith_none payload).symm
    · cases hrecord
  | device record =>
    cases hrecord
    exact (redactWith_none _).symm
  | sdk request id tenantId existing =>
    rw [Write.record, sdkRecord] at hrecord
    split at hrecord
    · cases hrecord
    · cases hrecord
      rfl

/-- A payload is redacted for the keys of its workspace. -/
def Workspace.Redacted (p : Value) : Prop :=
  ∀ keys, ws.keys py = some keys → redactPayload py strLower env keys p = p

/-- **Stored payloads are redacted.**  A payload that a write stores is redacted for its
    workspace exactly if the writer's own redaction leaves nothing of it to the workspace's. -/
theorem stored_redacted_iff (w : Write) {p : Value}
    (hp : w.stored py strLower env ws now = some p) :
    ws.Redacted py strLower env p ↔ ∀ keys, ws.keys py = some keys →
      ¬ Exposed (w.redaction py strLower env ws now) (configOf py strLower env keys) w.payload := by
  rw [Write.stored_eq py strLower env ws now hp]
  constructor
  · intro h keys hkeys
    exact (redactWith_redactWith _ _ _).1 (h keys hkeys)
  · intro h keys hkeys
    exact (redactWith_redactWith _ _ _).2 (h keys hkeys)

end Records

def launched : Workspace where
  engineConfig := [("shadow_map", .dict [("live", .str "candidate")])]
  cache := none

def noEnv : Env := ⟨"", "", ""⟩

/-- The lower-case letters and digits of a name, by which names are compared. -/
def plainChars (name : String) : List Char :=
  (name.toList.map Char.toLower).filter fun c => c.isLower || c.isDigit

theorem toList_normalize (name : String) :
    (normalizeRedactKey lower name).toList = plainChars name := by
  rw [normalizeRedactKey, lower, String.toList_ofList, String.toList_ofList, plainChars]

theorem not_mem_normalized {s : String} {names extraKeys : List String}
    (h : ∀ name ∈ names ++ extraKeys, plainChars name ≠ s.toList) :
    s ∉ names.map (normalizeRedactKey lower) ++ normalized lower extraKeys := by
  intro hs
  have hsub : s ∈ (names ++ extraKeys).map (normalizeRedactKey lower) := by
    rw [List.map_append]
    refine List.mem_append.2 ((List.mem_append.1 hs).imp_right fun hextra => ?_)
    exact List.map_subset _ (List.filter_subset_self _) (List.mem_filter.1 hextra).1
  obtain ⟨name, hname, rfl⟩ := List.mem_map.1 hsub
  exact h name hname (toList_normalize name).symm

/-- A name is left if its letters and digits are those of no name that is redacted, and the ones
    of its last words are not either. -/
theorem covers_eq_false {py : PyText} {extraKeys : List String} {key : String}
    (hkey : ∀ name ∈ REDACTED_KEYS ++ extraKeys, plainChars name ≠ plainChars key)
    (hends : ∀ name ∈ REDACTED_KEY_TOKENS ++ extraKeys,
      ∀ window ∈ List.range (min MAX_KEY_TOKENS (keyTokens key).length), plainChars name ≠
        (String.join ((keyTokens key).drop ((keyTokens key).length - (window + 1)))).toList) :
    (configOf py lower noEnv extraKeys).covers key = false := by
  have hnone : normalized lower ((noEnv.redactKeys.toList.splitOn ',').map String.ofList) = [] := rfl
  have hmode : exactKeys lower noEnv = false := by decide
  rw [configOf, hmode]
  dsimp only
  rw [if_neg Bool.false_ne_true, keyIsRedacted, redactKeys, hnone, List.append_nil,
    Bool.or_eq_false_iff, List.any_eq_false]
  constructor
  · rw [← toList_normalize] at hkey
    exact decide_eq_false (not_mem_normalized hkey)
  · intro window hwindow
    rw [decide_eq_true_iff]
    exact not_mem_normalized fun name hname => hends name hname window hwindow

def approves : ShadowHost where
  policy _ := true
  decide _ _ := some (.str "approve", .dict [])

def emailPayload : Value := .dict [("email", .str "ann@example.com")]

/-- The shadow's row keeps the address that the live row blanks. -/
theorem shadow_stores_email :
    (Write.shadow approves "1" "live" emailPayload (.str "approve")).stored asciiText lower noEnv
      launched 0 = some emailPayload ∧
    ¬ launched.Redacted asciiText lower noEnv emailPayload := by
  refine ⟨rfl, fun h => ?_⟩
  have hemail : (configOf asciiText lower noEnv []).covers "email" = true := by decide
  have hredacted := h [] rfl
  rw [redactPayload, emailPayload, redactWith, redactFields, redactFields, hemail, if_pos rfl]
    at hredacted
  injection hredacted with hfields
  injection hfields with hfield
  injection hfield with _ hvalue
  injection hvalue with htext
  exact absurd htext (by decide)

def synced (payload : Dict) : Write :=
  .sdk ⟨"live", payload, "approve", "completed", [], [], [], [], none, 12, none, "sdk_edge"⟩ "1"
    "acme" none

def ownKeys : Workspace where
  engineConfig := [("pii_redact_keys", .list [.str "account_no"])]
  cache := none

/-- An SDK's row is redacted for a workspace with a key of its own if that key covers nothing
    that the built-in ones leave. -/
theorem synced_amount :
    (synced [("amount", .int 500)]).stored asciiText lower noEnv ownKeys 0 =
        some (.dict [("amount", .int 500)]) ∧
      (ownKeys.Redacted asciiText lower noEnv (.dict [("amount", .int 500)]) ↔
        ∀ keys, ownKeys.keys asciiText = some keys →
          ¬ Exposed ((synced [("amount", .int 500)]).redaction asciiText lower noEnv ownKeys 0)
            (configOf asciiText lower noEnv keys) (synced [("amount", .int 500)]).payload) := by
  have hstored : (synced [("amount", .int 500)]).stored asciiText lower noEnv ownKeys 0 =
      some (.dict [("amount", .int 500)]) := by
    have hamount : (configOf asciiText lower noEnv []).covers "amount" = false :=
      covers_eq_false (by decide +kernel) (by decide +kernel)
    have hplain : redactWith (configOf asciiText lower noEnv []) (.int 500) = .int 500 := rfl
    have hpayload : redactPayload asciiText lower noEnv [] (.dict [("amount", .int 500)]) =
        .dict [("amount", .int 500)] := by
      rw [redactPayload, redactWith, redactFields, redactFields, hamount, hplain]
      rfl
    rw [Write.stored, synced, Write.record, sdkRecord]
    show some (redactPayload asciiText lower noEnv [] _) = _
    rw [hpayload]
  exact ⟨hstored, stored_redacted_iff asciiText lower noEnv ownKeys 0 _ hstored⟩

end RuleMind.Redaction
