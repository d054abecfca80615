/-
  Where the credentials of a connector come to rest: the rows that the routes of
  `app/routers/authoring.py` write, read column by column.
-/
import RuleMind.Connectors

namespace RuleMind.Connectors

open Lib Workspaces

/-! ### The columns in clear -/

mutual

def textsOf : Value → List String
  | .str s => [s]
  | .list vs => textsOfAll vs
  | .dict kvs => textsOfFields kvs
  | _ => []

def textsOfAll : List Value → List String
  | [] => []
  | v :: vs => textsOf v ++ textsOfAll vs

def textsOfFields : List (String × Value) → List String
  | [] => []
  | (key, item) :: kvs => key :: (textsOf item ++ textsOfFields kvs)

end

mutual

def leavesOf : Value → List String
  | .str s => [s]
  | .list vs => leavesOfAll vs
  | .dict kvs => leavesOfFields kvs
  | _ => []

def leavesOfAll : List Value → List String
  | [] => []
  | v :: vs => leavesOf v ++ leavesOfAll vs

def leavesOfFields : List (String × Value) → List String
  | [] => []
  | (_, item) :: kvs => leavesOf item ++ leavesOfFields kvs

end

def secretTexts (lower : String → String) (config : Dict) : List String :=
  ((secretEntries lower (.dict config)).flatMap fun e => leavesOf e.2).filter (· ≠ "")

section Columns

variable {C : Type}

def Row.texts (row : Row C) : List String :=
  [row.publicId, row.name] ++ row.icon.toList ++ row.color.toList ++ row.description.toList ++
    row.schemaFields ++ textsOfFields row.samplePayload

def History.texts (row : History) : List String :=
  ["connector", row.entityId] ++ textsOfFields row.snapshot

def ErrorEvent.texts (row : ErrorEvent) : List String :=
  [row.scope, row.stage, row.message, row.entityType, row.entityId] ++ textsOfFields row.details

def State.texts (s : State C) : List String :=
  s.rows.flatMap Row.texts ++ s.history.flatMap History.texts ++ s.errors.flatMap ErrorEvent.texts

/-- Every secret-marked value that a request has supplied. -/
def State.secrets (lower : String → String) (s : State C) : List String :=
  s.sent.flatMap (secretTexts lower)

def Occurs (v t : String) : Prop := v.toList <:+: t.toList

instance (v t : String) : Decidable (Occurs v t) :=
  inferInstanceAs (Decidable (v.toList <:+: t.toList))

def Sealed (lower : String → String) (s : State C) : Prop :=
  ∀ v ∈ s.secrets lower, ∀ t ∈ s.texts, ¬ Occurs v t

/-! ### What may be stored -/

/-- What a creation stores in clear, less the configuration. -/
def CreateRequest.texts (id : String) (request : CreateRequest) : List String :=
  "connector" :: id :: textsOfFields (createPayload id request)

def UpdateRequest.texts (request : UpdateRequest) : List String :=
  request.name.toList ++ request.icon.toList ++ request.color.toList ++
    request.description.toList ++ request.schemaPaths.getD [] ++
    textsOfFields (request.samplePayload.getD [])

/-- The wording of an error event of a test, without what the probe reports. -/
def wording (id : String) : List String :=
  ["connectors", "connector_test", "connector", id, "code", "no_endpoint_configured",
    "blocked_by_egress_policy", "outcome", "status", "dns_failure", "auth_failed", "http_error",
    "timeout", "tls_failure", "unreachable",
    "Connector has no base_url or webhook_url, so there is no endpoint to test."]

/-- The value is not taken for the marker that replaces secrets. -/
def Plain (v : String) : Prop := '*' ∉ v.toList ∧ ¬ v.toList <:+: "REDACTED".toList

/-- A failed test does not report the value: the guard's refusal does not name it, and neither does
    the failure of the connection, unless it is replaced there. -/
def Silent (svc : Services C) (env : Environment) (connector : Connector) (v : String) : Prop :=
  let config := configOf connector.config
  let url := env.resolveTemplate (firstStr config ["base_url", "webhook_url"])
    (secretView svc.lower config)
  let probe := classifyAnswer env.answer
  let opening := (probe.outcome ++ ": ").toList
  match env.vet url with
  | .refused message => ¬ Occurs v ("Blocked by egress policy: " ++ message)
  | .unresolved message => ¬ Occurs v ("dns_failure: " ++ truncated message)
  | .pinned => Plain v ∧
      (v ∈ env.resolved ++ connectorSecretValues svc.lower config ∧
          NoneFrom v.toList opening probe.reason.toList ∨
        ¬ v.toList <:+: opening ++ probe.reason.toList)

/-- The step stores no secret in clear: a creation supplies none, and no text that the step stores
    in clear repeats one. -/
def Discreet (svc : Services C) (s : State C) : Action → Prop
  | .create request => ∀ id, makeId svc s request = some id →
      secretTexts svc.lower request.config = [] ∧
        ∀ v ∈ s.secrets svc.lower, ∀ t ∈ request.texts id, ¬ Occurs v t
  | .update id request => (s.find id).isSome →
      (∀ v ∈ secretTexts svc.lower (request.config.getD []), ∀ t ∈ s.texts, ¬ Occurs v t) ∧
        ∀ v ∈ s.secrets svc.lower ++ secretTexts svc.lower (request.config.getD []),
          ∀ t ∈ request.texts, ¬ Occurs v t
  | .delete _ => True
  | .test id env => ∀ connector, getConnector svc s id true = some connector →
      ∀ v ∈ s.secrets svc.lower, (∀ t ∈ wording id, ¬ Occurs v t) ∧ Silent svc env connector v

end Columns

/-! ### Redaction -/

variable {v : String} {q : List Char}

theorem apart_redacted (h : Plain v) : Lib.Apart v.toList redacted := apart_marker h.1 h.2

theorem foldl_silent (hplain : Plain v) (secrets : List String)
    (hsecrets : ∀ secret ∈ secrets, secret ≠ "") :
    ∀ t : List Char, v ∈ secrets ∧ NoneFrom v.toList q t ∨ ¬ v.toList <:+: q ++ t →
      ¬ v.toList <:+: q ++ secrets.foldl (fun t secret => replace secret.toList redacted t) t := by
  have hapart := apart_redacted hplain
  induction secrets with
  | nil => simp
  | cons secret secrets ih =>
    intro t h
    have hne : secret.toList ≠ [] := by
      intro hnil
      exact hsecrets secret List.mem_cons_self (String.toList_eq_nil_iff.1 hnil)
    refine ih (fun x hx => hsecrets x (List.mem_cons_of_mem _ hx)) _ ?_
    rcases h with ⟨hmem, hfrom⟩ | hnot
    · rcases List.mem_cons.1 hmem with rfl | hmem
      · exact .inr (not_infix_replace hne hapart t q hfrom)
      · exact .inl ⟨hmem, hfrom.replace hne hapart⟩
    · exact .inr fun hin => hnot (infix_replace hne hapart t q hin)

theorem redact_silent {reason : String} {secrets : List String} (hv : v ≠ "") (hplain : Plain v)
    (h : v ∈ secrets ∧ NoneFrom v.toList q reason.toList ∨ ¬ v.toList <:+: q ++ reason.toList) :
    ¬ v.toList <:+: q ++ (redactResolvedSecrets secrets reason).toList := by
  simp_all [redactResolvedSecrets, foldl_silent]

theorem truncated_silent {reason : String} (h : ¬ v.toList <:+: q ++ reason.toList) :
    ¬ v.toList <:+: q ++ (truncated reason).toList := by
  intro hin
  rw [truncated, String.toList_ofList] at hin
  refine h (hin.trans ?_)
  exact ((List.prefix_append_right_inj q).2 (List.take_prefix 200 _)).isInfix

/-! ### Every step keeps the secrets sealed -/

section Steps

variable {C : Type} {svc : Services C} {s s' : State C} {id : String}

variable {lower : String → String} {t : String}

theorem secretTexts_ne {config : Dict} {v : String}
    (h : v ∈ secretTexts lower config) : v ≠ "" := by
  simpa using (List.mem_filter.1 h).2

theorem secrets_ne {v : String} (h : v ∈ s.secrets lower) : v ≠ "" := by
  obtain ⟨config, _, hv⟩ := List.mem_flatMap.1 h
  exact secretTexts_ne hv

theorem mem_texts : t ∈ s.texts ↔ (∃ row ∈ s.rows, t ∈ row.texts) ∨
    (∃ row ∈ s.history, t ∈ row.texts) ∨ ∃ row ∈ s.errors, t ∈ row.texts := by
  simp only [State.texts, List.mem_append, List.mem_flatMap, or_assoc]

theorem Sealed.extend (h : Sealed lower s) (more secrets : List String)
    (htexts : ∀ t ∈ s'.texts, t ∈ s.texts ∨ t ∈ more)
    (hsecrets : ∀ v ∈ s'.secrets lower, v ∈ s.secrets lower ∨ v ∈ secrets)
    (hold : ∀ v ∈ secrets, ∀ t ∈ s.texts, ¬ Occurs v t)
    (hnew : ∀ v ∈ s.secrets lower ++ secrets, ∀ t ∈ more, ¬ Occurs v t) : Sealed lower s' := by
  intro v hv t ht
  rcases htexts t ht with ht | ht
  · rcases hsecrets v hv with hv | hv
    · exact h v hv t ht
    · exact hold v hv t ht
  · exact hnew v (List.mem_append.2 (hsecrets v hv)) t ht

theorem textsOfAll_str (texts : List String) : textsOfAll (texts.map .str) = texts := by
  induction texts with
  | nil => rfl
  | cons t texts ih =>
    rw [List.map_cons, textsOfAll, textsOf, ih]
    rfl

theorem textsOf_optText (text : Option String) : textsOf (optText text) = text.toList := by
  cases text with
  | none => rfl
  | some t => rfl

theorem createRow_texts (request : CreateRequest) (config : C)
    (ht : t ∈ (⟨id, request.name, request.icon, request.color, request.description,
      request.schemaPaths, request.samplePayload, request.isActive, config⟩ : Row C).texts) :
    t ∈ request.texts id := by
  simp only [Row.texts, List.mem_append, List.mem_cons, List.not_mem_nil, or_false] at ht
  simp only [CreateRequest.texts, createPayload, textsOfFields, textsOf, textsOf_optText,
    textsOfAll_str, List.mem_append, List.mem_cons, List.not_mem_nil, or_false]
  tauto

theorem createConnector_sealed (h : Sealed svc.lower s) {request : CreateRequest}
    (hid : makeId svc s request = some id) (hdiscreet : Discreet svc s (.create request)) :
    Sealed svc.lower (createConnector svc s id request) := by
  obtain ⟨hnone, hclear⟩ := hdiscreet id hid
  unfold createConnector
  split
  · exact h
  · refine h.extend (request.texts id) [] ?_ ?_ ?_ ?_
    · intro t ht
      rcases mem_texts.1 ht with ⟨row, hrow, ht⟩ | ⟨row, hrow, ht⟩ | herror
      · rcases List.mem_append.1 hrow with hold | hnew
        · exact .inl (mem_texts.2 (.inl ⟨row, hold, ht⟩))
        · rw [List.mem_singleton.1 hnew] at ht
          exact .inr (createRow_texts request _ ht)
      · rcases List.mem_append.1 hrow with hold | hnew
        · exact .inl (mem_texts.2 (.inr (.inl ⟨row, hold, ht⟩)))
        · rw [List.mem_singleton.1 hnew] at ht
          exact .inr ht
      · exact .inl (mem_texts.2 (.inr (.inr herror)))
    · simp [State.secrets, List.flatMap_append, List.flatMap_cons, List.flatMap_nil, hnone,
        List.append_nil]
    · exact fun v hv => absurd hv List.not_mem_nil
    simp_all

theorem textOr_mem {a b : Option String} (h : t ∈ (textOr a b).toList) :
    t ∈ a.toList ∨ t ∈ b.toList := by grind [textOr]

theorem orElse_mem {a b : Option String} (h : t ∈ (a <|> b).toList) :
    t ∈ a.toList ∨ t ∈ b.toList := by
  cases a with
  | none => exact .inr h
  | some x => exact .inl h

theorem textOr_name (request : Option String) (name : String) :
    (textOr request (some name)).getD "" ∈ request.toList ∨
      (textOr request (some name)).getD "" = name := by
  unfold textOr
  split
  · exact .inr rfl
  · cases request with
    | none => exact absurd rfl ‹_›
    | some text => exact .inl (List.mem_singleton_self _)

theorem updateRow_texts (request : UpdateRequest) (row : Row C)
    (ht : t ∈ (updateRow svc (patchOf request (connectorToDict svc false row)) row).texts) :
    t ∈ row.texts ∨ t ∈ request.texts := by
  have hfield : ∀ a b : Option String, t ∈ (textOr a b <|> b).toList →
      t ∈ a.toList ∨ t ∈ b.toList := by
    intro a b h
    rcases orElse_mem h with h | h
    · exact textOr_mem h
    · exact .inr h
  simp only [Row.texts, UpdateRequest.texts, List.mem_append, List.mem_cons, List.not_mem_nil,
    or_false] at ht ⊢
  rcases ht with (((((rfl | rfl) | hicon) | hcolor) | hdescription) | hschema) | hpayload
  · exact .inl (.inl (.inl (.inl (.inl (.inl (.inl rfl))))))
  · rcases textOr_name request.name row.name with hname | hname
    · exact .inr (.inl (.inl (.inl (.inl (.inl hname)))))
    · exact .inl (.inl (.inl (.inl (.inl (.inl (.inr hname))))))
  · have h : t ∈ request.icon.toList ∨ t ∈ row.icon.toList := hfield _ _ hicon
    rcases h with h | h <;> simp [h]
  · have h : t ∈ request.color.toList ∨ t ∈ row.color.toList := hfield _ _ hcolor
    rcases h with h | h <;> simp [h]
  · have h : t ∈ request.description.toList ∨ t ∈ row.description.toList := by
      rcases orElse_mem hdescription with h | h
      · exact orElse_mem h
      · exact .inr h
    rcases h with h | h <;> simp [h]
  · have h : t ∈ row.schemaFields ∨ t ∈ request.schemaPaths.getD [] := by
      simp only [updateRow, patchOf] at hschema
      split at hschema
      · exact .inl hschema
      · exact .inr hschema
    rcases h with h | h <;> simp [h]
  · have h : t ∈ textsOfFields row.samplePayload ∨
        t ∈ textsOfFields (request.samplePayload.getD []) := by
      simp only [updateRow, patchOf] at hpayload
      cases hsample : request.samplePayload with
      | none =>
        rw [hsample] at hpayload
        exact .inl hpayload
      | some payload =>
        rw [hsample] at hpayload
        exact .inr hpayload
    rcases h with h | h <;> simp [h]

theorem updateConnector_sealed (h : Sealed svc.lower s) {request : UpdateRequest}
    (hdiscreet : Discreet svc s (.update id request)) :
    Sealed svc.lower (updateConnector svc s id request) := by
  unfold updateConnector
  split
  · exact h
  · rename_i old hfind
    obtain ⟨hstored, hclear⟩ := hdiscreet (by rw [hfind]; rfl)
    obtain ⟨hold, rfl⟩ := State.find_mem hfind
    have htexts : ∀ t ∈ (s.replaceRow old.publicId
        (updateRow svc (patchOf request (connectorToDict svc false old)) old)).texts,
        t ∈ s.texts ∨ t ∈ request.texts := by
      intro t ht
      rcases mem_texts.1 ht with ⟨row, hrow, ht⟩ | hrest
      · rcases mem_replaceRow hrow with rfl | ⟨hrow, _⟩
        · grind [updateRow_texts, mem_texts]
        · exact .inl (mem_texts.2 (.inl ⟨row, hrow, ht⟩))
      · exact .inl (mem_texts.2 (.inr hrest))
    cases hconfig : request.config with
    | none =>
      refine h.extend request.texts [] htexts (fun v hv => .inl hv)
        (fun v hv => absurd hv List.not_mem_nil) ?_
      simp_all
    | some config =>
      rw [hconfig] at hstored hclear
      refine h.extend request.texts (secretTexts svc.lower config) htexts ?_ hstored hclear
      intro v hv
      simp only [State.secrets, List.flatMap_append, List.flatMap_cons, List.flatMap_nil,
        List.append_nil] at hv
      exact List.mem_append.1 hv

/-! A failed test. -/

theorem occurs_append {v a b : String} (h : ¬ v.toList <:+: a.toList ++ b.toList) :
    ¬ Occurs v (a ++ b) := by
  rwa [Occurs, String.toList_append]

theorem classifyStatus_outcome (code : ℕ) : (classifyStatus code).passed = true ∨
    (classifyStatus code).outcome ∈ ["auth_failed", "http_error"] := by
  unfold classifyStatus
  grind

theorem classifyAnswer_outcome (id : String) (answer : Answer) :
    (classifyAnswer answer).passed = true ∨ (classifyAnswer answer).outcome ∈ wording id := by
  cases answer with
  | status code =>
    refine (classifyStatus_outcome code).imp_right fun h => ?_
    have hmem : (classifyStatus code).outcome = "auth_failed" ∨
        (classifyStatus code).outcome = "http_error" := by simpa using h
    rcases hmem with h | h <;> simp [classifyAnswer, wording, h]
  | timeout => simp [classifyAnswer, wording]
  | tls text => simp [classifyAnswer, wording]
  | unreachable text => simp [classifyAnswer, wording]

variable {env : Environment} {connector : Connector} {v : String}

theorem probeConnector_error {bad : Misconfigured}
    (h : probeConnector svc env connector = .error bad) (hwording : ∀ t ∈ wording id, ¬ Occurs v t)
    (hsilent : Silent svc env connector v) :
    bad.code ∈ wording id ∧ ¬ Occurs v bad.reason := by
  simp only [probeConnector] at h
  split at h
  · cases h
    exact ⟨by simp [wording], hwording _ (by simp [wording])⟩
  grind [Silent, wording]

theorem probeConnector_ok (id : String) {probe : Probe}
    (h : probeConnector svc env connector = .ok probe) (hv : v ≠ "")
    (hsilent : Silent svc env connector v) (hfailed : probe.passed = false) :
    probe.outcome ∈ wording id ∧ ¬ Occurs v (probe.outcome ++ ": " ++ probe.reason) := by
  simp only [probeConnector] at h
  split at h
  · cases h
  · split at h
    · cases h
      cases hfailed
    · unfold Silent at hsilent
      split at h
      · rename_i hvet
        simp only [hvet] at hsilent
        cases h
        exact ⟨by simp [wording], hsilent⟩
      · cases h
      grind [occurs_append, truncated_silent, redact_silent, classifyAnswer_outcome]

theorem connectorError_texts {message : String} {details : Dict}
    (hdetails : ∀ t ∈ textsOfFields details, t ∈ wording id)
    (ht : t ∈ (connectorError id message details).texts) : t = message ∨ t ∈ wording id := by
  simp only [ErrorEvent.texts, connectorError, List.mem_append, List.mem_cons, List.not_mem_nil,
    or_false] at ht
  rcases ht with (rfl | rfl | rfl | rfl | rfl) | ht
  · right; simp [wording]
  · right; simp [wording]
  · left; rfl
  · right; simp [wording]
  · right; simp [wording]
  · exact .inr (hdetails t ht)

theorem testEvent_silent {event : ErrorEvent} (h : testEvent svc env id connector = some event)
    (hv : v ≠ "") (hwording : ∀ t ∈ wording id, ¬ Occurs v t)
    (hsilent : Silent svc env connector v) : ∀ t ∈ event.texts, ¬ Occurs v t := by
  intro t ht
  unfold testEvent at h
  cases hprobe : probeConnector svc env connector with
  | error bad =>
    rw [hprobe] at h
    obtain rfl := Option.some.inj h
    obtain ⟨hcode, hreason⟩ := probeConnector_error hprobe hwording hsilent
    have hdetails : ∀ t ∈ textsOfFields [("code", Value.str bad.code)], t ∈ wording id := by
      intro t ht
      simp only [textsOfFields, textsOf, List.append_nil, List.mem_cons, List.not_mem_nil,
        or_false] at ht
      rcases ht with rfl | rfl
      · simp [wording]
      · exact hcode
    rcases connectorError_texts hdetails ht with rfl | hmem
    · exact hreason
    · exact hwording t hmem
  | ok probe =>
    rw [hprobe] at h
    cases hpassed : probe.passed with
    | true => simp [hpassed] at h
    | false =>
      simp only [hpassed, Bool.false_eq_true, if_false] at h
      obtain rfl := Option.some.inj h
      obtain ⟨houtcome, hreason⟩ := probeConnector_ok id hprobe hv hsilent hpassed
      have hdetails : ∀ t ∈ textsOfFields [("outcome", Value.str probe.outcome),
          ("status", (probe.status.map fun code => .int code).getD .null)], t ∈ wording id := by
        intro t ht
        simp only [textsOfFields, textsOf, List.append_nil, List.mem_append, List.mem_cons,
          List.not_mem_nil, or_false] at ht
        rcases ht with rfl | rfl | rfl | hstatus
        · simp [wording]
        · exact houtcome
        · simp [wording]
        · cases hcode : probe.status with
          | none =>
            rw [hcode] at hstatus
            exact absurd hstatus List.not_mem_nil
          | some code =>
            rw [hcode] at hstatus
            exact absurd hstatus List.not_mem_nil
      rcases connectorError_texts hdetails ht with rfl | hmem
      · exact hreason
      · exact hwording t hmem

theorem testConnector_sealed (h : Sealed svc.lower s) (hdiscreet : Discreet svc s (.test id env)) :
    Sealed svc.lower (testConnector svc s env id) := by
  unfold testConnector
  split
  · exact h
  · rename_i connector hget
    have hsaid := hdiscreet connector hget
    refine h.extend ((testEvent svc env id connector).toList.flatMap ErrorEvent.texts) [] ?_
      (fun v hv => .inl hv) (fun v hv => absurd hv List.not_mem_nil) ?_
    · intro t ht
      rcases mem_texts.1 ht with hrow | hrow | ⟨event, hevent, ht⟩
      · exact .inl (mem_texts.2 (.inl hrow))
      · exact .inl (mem_texts.2 (.inr (.inl hrow)))
      · rcases List.mem_append.1 hevent with hold | hnew
        · exact .inl (mem_texts.2 (.inr (.inr ⟨event, hold, ht⟩)))
        · exact .inr (List.mem_flatMap.2 ⟨event, hnew, ht⟩)
    grind [testEvent_silent, secrets_ne]

theorem deleteConnector_sealed (h : Sealed svc.lower s) (id : String) :
    Sealed svc.lower (deleteConnector s id) := by
  unfold deleteConnector
  split
  · exact h
  · split
    · exact h
    · intro v hv t ht
      refine h v hv t (mem_texts.2 ?_)
      grind [mem_texts]

theorem step_sealed {a : Action} (h : Sealed svc.lower s) (hdiscreet : Discreet svc s a)
    (hstep : step svc s a = some s') : Sealed svc.lower s' := by
  cases a with
  | create request =>
    simp only [step] at hstep
    split at hstep
    · obtain rfl := Option.some.inj hstep
      exact h
    · rename_i id hid
      obtain rfl := Option.some.inj hstep
      exact createConnector_sealed h hid hdiscreet
  | update id request =>
    obtain rfl := Option.some.inj hstep
    exact updateConnector_sealed h hdiscreet
  | delete id =>
    obtain rfl := Option.some.inj hstep
    exact deleteConnector_sealed h id
  | test id env =>
    obtain rfl := Option.some.inj hstep
    exact testConnector_sealed h hdiscreet

end Steps

/-! ### Two runs -/

def keyless : CreateRequest := { crm with config := [("base_url", .str "https://crm.test")] }

/-- The connection fails, and the error names the key. -/
def failing : Environment where
  resolveTemplate text _ := text
  resolved := []
  vet _ := .pinned
  answer := .unreachable "https://crm.test?key=s3cret"

def keylessRun : List Action :=
  [.create keyless, .update "crm" (renamed (some crm.config)), .test "crm" failing]

theorem keyless_secrets : secretTexts id keyless.config = [] := by
  simp [secretTexts, keyless, secretEntries, secretFields, url_no_secret]

theorem crm_secrets : secretTexts id crm.config = ["s3cret"] := by
  rw [secretTexts, crm, entries_crm]
  rfl

theorem sent_secrets : [keyless.config, crm.config].flatMap (secretTexts id) = ["s3cret"] := by
  rw [List.flatMap_cons, List.flatMap_cons, keyless_secrets, crm_secrets]
  rfl

theorem failing_silent {connector : Connector} (h : connector.config = .dict crm.config) :
    Silent plainServices failing connector "s3cret" := by
  have howned : "s3cret" ∈ failing.resolved ++ connectorSecretValues id crm.config := by
    simp [connectorSecretValues, crm, api_key_secret]
  have hfrom : NoneFrom "s3cret".toList "unreachable: ".toList
      "connection failed: https://crm.test?key=s3cret".toList := by
    unfold NoneFrom
    decide
  unfold Silent
  rw [h]
  exact ⟨⟨by decide, by decide⟩, .inl ⟨howned, hfrom⟩⟩

end RuleMind.Connectors
