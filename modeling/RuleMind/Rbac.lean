/-
  Which request a role may make (`app/rbac.py`), against what the request does to the
  stages of the assets.
-/
import RuleMind.DualControl

namespace RuleMind.Assets

/-! ### Capabilities -/

inductive Capability
  | read
  | decide
  | author
  | review
  | deploy
  | manageAccess
  deriving DecidableEq, Repr

/-- `path.startswith(prefix)`. -/
def startsWith (path start : String) : Bool := start.toList.isPrefixOf path.toList

/-- `path.endswith(suffix)`. -/
def endsWith (path ending : String) : Bool := ending.toList.isSuffixOf path.toList

def writePrefixCapability : List (String × Capability) :=
  [("/api/v1/access", .manageAccess), ("/api/v1/webhook-subscriptions", .manageAccess),
    ("/api/v1/settings", .manageAccess), ("/api/v1/branding", .manageAccess),
    ("/api/v1/reports/email-config", .manageAccess), ("/api/v1/reviews", .review),
    ("/api/v1/promotions", .deploy), ("/api/v1/deploy", .deploy)]

def identityPrefixes : List String :=
  ["/scim/v2", "/api/admin/v1", "/api/v1/auth", "/api/mobile/v1/auth"]

def authorPrefixes : List String :=
  ["/api/v1/connectors", "/api/v1/variables", "/api/v1/rules", "/api/v1/scorecards",
    "/api/v1/policies", "/api/v1/decision-tables", "/api/v1/experiments", "/api/v1/schedules",
    "/api/v1/webhooks", "/api/v1/bundles", "/api/v1/segments", "/api/v1/debug",
    "/api/v1/journeys", "/api/v1/model-sets", "/api/v1/predictors", "/api/v1/ai",
    "/api/v1/collab", "/api/v1/import", "/api/v1/evaluations", "/api/v1/reports",
    "/api/v1/analytics", "/api/v1/onboarding", "/api/mobile/v1"]

def decidePrefixes : List String :=
  ["/api/v1/decide", "/api/v1/simulate", "/api/v1/test", "/sdk/v1", "/api/v1/workflows",
    "/api/v1/executions", "/api/v1/decisions"]

def requiredCapability (method path : String) : Capability :=
  if method ∈ ["GET", "HEAD", "OPTIONS"] then .read
  else if startsWith path "/api/v1/policies" && endsWith path "/promote" then .deploy
  else if startsWith path "/api/v1/models" then
    if endsWith path "/predict" || endsWith path "/test" then .decide else .manageAccess
  else if identityPrefixes.any (startsWith path) then .manageAccess
  else match writePrefixCapability.find? fun x => startsWith path x.1 with
    | some x => x.2
    | none =>
      if decidePrefixes.any (startsWith path) then .decide
      else if authorPrefixes.any (startsWith path) then .author
      else .manageAccess

def allCapabilities : List Capability := [.read, .decide, .author, .review, .deploy, .manageAccess]

def roleCapabilities : List (String × List Capability) :=
  [("owner", allCapabilities), ("admin", allCapabilities),
    ("policy_maker", [.read, .decide, .author]), ("reviewer", [.read, .decide, .review]),
    ("viewer", [.read])]

/-- A role that is none has the capabilities of the owner. -/
def capabilitiesFor (role : String) : List Capability :=
  ((roleCapabilities.find? fun x => x.1 = role).map (·.2)).getD allCapabilities

def isAllowed (role method path : String) : Bool :=
  requiredCapability method path ∈ capabilitiesFor role

/-! ### Routes -/

def segments (path : String) : List String := (path.toList.splitOn '/').map String.ofList

def kindOfPath : String → Option Kind
  | "variables" => some .varDef
  | "rules" => some .rule
  | "scorecards" => some .scorecard
  | "policies" => some .policy
  | _ => none

def bodyText (body : Value) (key default : String) : Option String :=
  ((body.field key).getD (.str default)).asStr

/-- `PromoteRequest`; no body is an empty one. -/
def promoteBody (body : Value) : Option (String × String) := do
  if body ≠ .null ∧ body.asDict = none then none
  let promotedBy ← bodyText body "promoted_by" "system"
  let reason ← bodyText body "reason" "Manual promotion"
  return (promotedBy, reason)

/-- `DeployItemModel`. -/
def deployItem (item : Value) : Option DeployItem := do
  let entityType ← (item.field "entity_type").bind Value.asStr
  let entityId ← (item.field "entity_id").bind Value.asStr
  let promotedBy ← bodyText item "promoted_by" "system"
  let reason ← bodyText item "reason" "Batch promotion"
  return ⟨entityType, entityId, promotedBy, reason⟩

/-- `DeployPromoteRequest`. -/
def deployItems (body : Value) : Option (List DeployItem) :=
  ((body.field "items").bind Value.asList).bind fun items => items.mapM deployItem

structure HttpRequest where
  method : String
  path : String
  skipMece : Bool
  body : Value

/-- The handler a path leads to, with its arguments. -/
def route (r : HttpRequest) : Option Request :=
  match segments r.path with
  | ["", "api", "v1", "import"] => if r.method = "POST" then some (.importConfig r.body) else none
  | ["", "api", "v1", collection] =>
    if r.method = "POST" then (kindOfPath collection).map fun kind => .create kind r.body else none
  | ["", "api", "v1", "deploy", "promote"] =>
    if r.method = "POST" then (deployItems r.body).map .deployPromote else none
  | ["", "api", "v1", collection, id] =>
    if id = "" then none
    else if r.method = "PUT" then (kindOfPath collection).map fun kind => .update kind id r.body
    else if r.method = "DELETE" then (kindOfPath collection).map fun kind => .delete kind id
    else none
  | ["", "api", "v1", "test", collection, id] =>
    if id = "" ∨ r.method ≠ "POST" then none
    else if collection = "rule" then some (.test .rule id r.body)
    else if collection = "policy" then some (.test .policy id r.body)
    else none
  | ["", "api", "v1", collection, id, "test"] =>
    if id = "" ∨ r.method ≠ "POST" ∨ collection = "policies" then none
    else (kindOfPath collection).map fun kind => .test kind id r.body
  | ["", "api", "v1", "policies", id, "execute"] =>
    if id = "" ∨ r.method ≠ "POST" then none else some (.test .policy id r.body)
  | ["", "api", "v1", collection, id, "promote"] =>
    if id = "" ∨ r.method ≠ "POST" then none
    else (promoteBody r.body).bind fun x =>
      (kindOfPath collection).map fun kind => .promote kind id x.1 x.2 r.skipMece
  | _ => none

/-! ### What a request needs -/

theorem toList_of_segments {path : String} {parts : List String} (h : segments path = parts) :
    path.toList = ['/'].intercalate (parts.map String.toList) := by
  have hparts : parts.map String.toList = path.toList.splitOn '/' := by
    rw [← h, segments, List.map_map]
    exact (List.map_congr_left fun cs _ => String.toList_ofList).trans (List.map_id _)
  rw [hparts, List.intercalate_splitOn]

theorem kindOfPath_policy {collection : String} (h : kindOfPath collection = some .policy) :
    collection = "policies" := by
  unfold kindOfPath at h
  grind

theorem route_cases {r : HttpRequest} {req : Request} (h : route r = some req) :
    (∀ key, req.promotes key = false) ∨
    (r.method = "POST" ∧ ∃ collection kind id promotedBy reason skipMece,
      req = .promote kind id promotedBy reason skipMece ∧ kindOfPath collection = some kind ∧
      segments r.path = ["", "api", "v1", collection, id, "promote"]) ∨
    (r.method = "POST" ∧ segments r.path = ["", "api", "v1", "deploy", "promote"]) := by
  -- every other path leads to a request that promotes nothing
  have hmap : ∀ {o : Option Kind} {f : Kind → Request}, o.map f = some req →
      (∀ kind key, (f kind).promotes key = false) → ∀ key, req.promotes key = false := by
    intro o f h hf
    obtain ⟨kind, -, rfl⟩ := Option.map_eq_some_iff.1 h
    exact hf kind
  unfold route at h
  split at h
  · split at h
    · cases h
      exact Or.inl fun _ => rfl
    · cases h
  · split at h
    · exact Or.inl (hmap h fun _ _ => rfl)
    · cases h
  · grind
  · split at h
    · cases h
    split at h
    · exact Or.inl (hmap h fun _ _ => rfl)
    split at h
    · exact Or.inl (hmap h fun _ _ => rfl)
    · cases h
  · split at h
    · cases h
    split at h
    · cases h
      exact Or.inl fun _ => rfl
    split at h
    · cases h
      exact Or.inl fun _ => rfl
    · cases h
  · split at h
    · cases h
    · exact Or.inl (hmap h fun _ _ => rfl)
  · split at h
    · cases h
    · cases h
      exact Or.inl fun _ => rfl
  · rename_i collection id _ hsegments
    split at h
    · cases h
    · rename_i hpost
      obtain ⟨x, -, h⟩ := Option.bind_eq_some_iff.1 h
      obtain ⟨kind, hkind, rfl⟩ := Option.map_eq_some_iff.1 h
      grind
  · cases h

theorem required_deploy {r : HttpRequest} (hpost : r.method = "POST")
    (h : (∃ id, segments r.path = ["", "api", "v1", "policies", id, "promote"]) ∨
      segments r.path = ["", "api", "v1", "deploy", "promote"]) :
    requiredCapability r.method r.path = .deploy := by
  rw [requiredCapability, hpost, if_neg (by decide)]
  rcases h with ⟨id, hsegments⟩ | hsegments
  · have hpath : r.path.toList = "/api/v1/policies/".toList ++ id.toList ++ "/promote".toList := by
      rw [toList_of_segments hsegments]
      simp [List.intercalate]
    have hstarts : startsWith r.path "/api/v1/policies" = true := by
      refine List.isPrefixOf_iff_prefix.2 ?_
      rw [hpath, List.append_assoc]
      exact (show "/api/v1/policies".toList <+: "/api/v1/policies/".toList by decide).trans
        (List.prefix_append _ _)
    grind [endsWith]
  · have hpath : r.path = "/api/v1/deploy/promote" :=
      String.toList_injective (toList_of_segments hsegments)
    rw [hpath]
    decide

/-! ### What a request of a role without `deploy` does -/

section
variable (svc : Services) (actor : String) (ws : Workspace)

def AdvancesNothing (req : Request) : Prop :=
  ∀ key, ∀ status ∈ ["uat", "prod"], (handle svc actor req ws).2.statusOf key = some status →
    ws.statusOf key = some status

/-- No create, update or import writes uat or prod as the status of an asset that is
    elsewhere, and no single promotion finds an asset it can promote. -/
def Harmless (req : Request) : Prop :=
  (∀ key, ∀ status ∈ ["uat", "prod"], req.Writes svc ws key status →
    ws.statusOf key = some status) ∧
  ∀ kind id promotedBy reason skipMece, req = .promote kind id promotedBy reason skipMece →
    ∀ x, promotable actor kind.name id ws ≠ .ok x

end

section
variable {svc : Services} {actor : String} {ws : Workspace}

variable {target id promotedBy reason : String} {kind : Kind} {skipMece : Bool}

theorem promotionFlow_target {status : String} (h : promotionFlow status = some target) :
    target ∈ ["uat", "prod"] ∧ status ≠ target := by
  unfold promotionFlow at h
  grind

theorem promote_moves (hkind : kind ≠ .policy) {a : Asset}
    (h : promotable actor kind.name id ws = .ok (a, target)) :
    (promote svc actor kind id promotedBy reason skipMece ws).2.statusOf a.key = some target := by
  have hgated : gated svc kind id skipMece ws = .ok () := by
    unfold gated
    split
    · rw [if_neg fun h => hkind h.1]
    · rfl
  have heffect := promoteEntity_effect svc actor kind.name id promotedBy reason ws
  rw [h] at heffect
  rw [promote, decideThen_ok _ hgated]
  exact congrArg (Option.map Asset.status) heffect.1.moved

theorem promote_refused (h : ∀ x, promotable actor kind.name id ws ≠ .ok x) :
    (promote svc actor kind id promotedBy reason skipMece ws).2 = ws := by
  cases hgated : gated svc kind id skipMece ws with
  | error e => rw [promote, decideThen_error _ hgated]
  | ok u =>
    rw [promote, decideThen_ok _ hgated]
    have heffect := promoteEntity_effect svc actor kind.name id promotedBy reason ws
    grind

/-- Which requests that a role without `deploy` may make bring no asset into uat or prod. -/
theorem advances_nothing_iff (svc : Services) (actor role : String) (ws : Workspace)
    {r : HttpRequest} {req : Request} (hroute : route r = some req)
    (hallowed : isAllowed role r.method r.path = true)
    (hlacks : Capability.deploy ∉ capabilitiesFor role) :
    AdvancesNothing svc actor ws req ↔ Harmless svc actor ws req := by
  have hneeds : requiredCapability r.method r.path ≠ .deploy := fun h => by simp_all [isAllowed]
  rcases route_cases hroute with
    hno | ⟨hpost, collection, kind, id, promotedBy, reason, skipMece, rfl, hkind, hpath⟩ |
      ⟨hpost, hpath⟩
  · constructor
    · intro h
      refine ⟨fun key status hstage hwrites => h key status hstage (statusOf_of_writes hwrites), ?_⟩
      rintro kind id promotedBy reason skipMece rfl
      simpa [Request.promotes] using hno (kind, id)
    · intro h key status hstage hafter
      rcases statusOf_handle (hno key) hafter with hold | hwrites
      · exact hold
      · exact h.1 key status hstage hwrites
  · have hpolicy : kind ≠ .policy := by
      rintro rfl
      obtain rfl := kindOfPath_policy hkind
      exact hneeds (required_deploy hpost (Or.inl ⟨id, hpath⟩))
    constructor
    · intro h
      refine ⟨(fun _ _ _ hwrites => hwrites.elim), ?_⟩
      rintro _ _ _ _ _ hreq ⟨a, target⟩ hpromotable
      cases hreq
      obtain ⟨-, -, hget, htarget⟩ := promotable_ok.1 hpromotable
      obtain ⟨-, hflow, -⟩ := promotionTarget_flow htarget
      obtain ⟨hstage, hne⟩ := promotionFlow_target hflow
      have hbefore := h a.key target hstage (promote_moves hpolicy hpromotable)
      grind [Workspace.statusOf]
    · intro h key status hstage hafter
      have hsame : (promote svc actor kind id promotedBy reason skipMece ws).2 = ws :=
        promote_refused (h.2 _ _ _ _ _ rfl)
      exact (congrArg (Workspace.statusOf · key) hsame).symm.trans hafter
  · exact absurd (required_deploy hpost (Or.inr hpath)) hneeds

end

/-- A policy maker creates a rule in dev. -/
theorem drafted_advances_nothing : AdvancesNothing lenient "member:1" emptyWorkspace
    (.create .rule (namedBody "adult" "dev")) := by
  have hroute : route ⟨"POST", "/api/v1/rules", false, namedBody "adult" "dev"⟩ =
      some (.create .rule (namedBody "adult" "dev")) := by decide +kernel
  refine (advances_nothing_iff lenient "member:1" "policy_maker" emptyWorkspace hroute
    (by decide +kernel) (by decide +kernel)).2
    ⟨fun key status hstage hwrites => ?_, (fun _ _ _ _ _ h => nomatch h)⟩
  obtain ⟨a, ha, -, -, rfl⟩ := hwrites
  have hdev : (createdAsset lenient .rule (namedBody "adult" "dev") emptyWorkspace).map
      Asset.status = .ok "dev" := by decide +kernel
  rw [ha] at hdev
  rw [Except.ok.inj hdev] at hstage
  exact absurd hstage (by decide)

def testedRule : Asset :=
  ⟨.rule, "adult", [("name", .str "adult")], "dev", .dict [("passed", .bool true)], 1⟩

/-- A policy maker promotes a rule to uat. -/
theorem author_promotes_rule :
    let r : HttpRequest := ⟨"POST", "/api/v1/rules/adult/promote", false, .null⟩
    let ws : Workspace := ⟨[testedRule], [], true, List.nodup_singleton _⟩
    isAllowed "policy_maker" r.method r.path = true ∧
      Capability.deploy ∉ capabilitiesFor "policy_maker" ∧
      ∃ req, route r = some req ∧ ¬ AdvancesNothing lenient "member:1" ws req := by
  refine ⟨by decide +kernel, by decide +kernel,
    .promote .rule "adult" "system" "Manual promotion" false, by decide +kernel, fun h => ?_⟩
  have hbefore := h (.rule, "adult") "uat" (by decide) (by decide +kernel)
  exact absurd hbefore (by decide +kernel)

end RuleMind.Assets
