/-
  Variables, rules, scorecards and policies of one workspace, and the requests that
  write them (`app/routers/`, `promote_entity` of `app/main.py`, `replace_all` of
  `app/storage.py`).

  A handler is a program over the workspace: it decides what to do on the workspace it
  finds, and what it stored before it raised stays stored.  What a body is validated
  against, how an asset is tested and how a policy is captured belong to other parts of
  the program and are parameters (`Services`).
-/
import RuleMind.Value
import RuleMind.Lib.Prog
import RuleMind.Lib.Raises
import Mathlib.Data.List.Nodup

namespace RuleMind.Assets

/-! ### The stored assets -/

inductive Kind
  | varDef
  | rule
  | scorecard
  | policy
  deriving DecidableEq, Repr

namespace Kind

def name : Kind → String
  | varDef => "variable"
  | rule => "rule"
  | scorecard => "scorecard"
  | policy => "policy"

/-- The kinds `promote_entity` knows. -/
def ofName (s : String) : Option Kind :=
  [varDef, rule, scorecard, policy].find? fun kind => kind.name = s

theorem ofName_name (kind : Kind) : ofName kind.name = some kind := by
  cases kind <;> decide

end Kind

abbrev Key := Kind × String

/-- A row; `fields` holds the columns of the definition. -/
structure Asset where
  kind : Kind
  id : String
  fields : Dict
  status : String
  lastTestResult : Value
  version : ℤ
  deriving DecidableEq

def Asset.key (a : Asset) : Key := (a.kind, a.id)

/-- What an update changes; a null column of it is left out. -/
structure Patch where
  fields : Dict
  status : Option String
  lastTestResult : Option Value

def Asset.patched (a : Asset) (patch : Patch) (bumpVersion : Bool) : Asset :=
  { a with
    fields := a.fields.map fun kv =>
      (kv.1, ((patch.fields.lookup kv.1).filter fun v => !v.isNull).getD kv.2)
    status := patch.status.getD a.status
    lastTestResult := (patch.lastTestResult.filter fun v => !v.isNull).getD a.lastTestResult
    version := if bumpVersion then a.version + 1 else a.version }

theorem Asset.patched_status (a : Asset) (status : String) :
    a.patched ⟨[], some status, none⟩ false = { a with status := status } := by
  simp [Asset.patched]

structure Promotion where
  key : Key
  fromStatus : String
  toStatus : String
  promotedBy : String
  reason : String
  deriving DecidableEq

/-- The ledger has its newest row first; an id is stored once a kind. -/
structure Workspace where
  assets : List Asset
  promotions : List Promotion
  dualControl : Bool
  unique : (assets.map Asset.key).Nodup
  deriving DecidableEq

namespace Workspace

def get (ws : Workspace) (key : Key) : Option Asset := ws.assets.find? fun a => a.key = key

def statusOf (ws : Workspace) (key : Key) : Option String := (ws.get key).map (·.status)

def lastPromotionActor (ws : Workspace) (key : Key) (toStatus : String) : Option String :=
  (ws.promotions.find? fun p => p.key = key ∧ p.toStatus = toStatus).map (·.promotedBy)

variable {ws : Workspace} {key : Key} {a : Asset}

theorem key_of_get (h : ws.get key = some a) : a.key = key := by
  simpa using List.find?_some h

theorem mem_of_get (h : ws.get key = some a) : a ∈ ws.assets := List.mem_of_find?_eq_some h

theorem get_eq_none : ws.get key = none ↔ key ∉ ws.assets.map Asset.key := by
  simp [get]

theorem get_of_mem (h : a ∈ ws.assets) : ws.get a.key = some a := by
  cases hg : ws.get a.key with
  | none => exact absurd (List.mem_map_of_mem h) (get_eq_none.1 hg)
  | some b =>
    have hb := mem_of_get hg
    have hkey := key_of_get hg
    rw [List.inj_on_of_nodup_map ws.unique hb h hkey]

/-! What is written -/

def insert (ws : Workspace) (a : Asset) (h : ws.get a.key = none) : Workspace where
  assets := ws.assets ++ [a]
  promotions := ws.promotions
  dualControl := ws.dualControl
  unique := by
    rw [List.map_append, List.map_singleton, List.nodup_append]
    exact ⟨ws.unique, List.nodup_singleton _, by simpa using get_eq_none.1 h⟩

def patch (ws : Workspace) (key : Key) (p : Patch) (bumpVersion : Bool) : Workspace where
  assets := ws.assets.map fun a => if a.key = key then a.patched p bumpVersion else a
  promotions := ws.promotions
  dualControl := ws.dualControl
  unique := by
    have hkeys : (ws.assets.map fun a => if a.key = key then a.patched p bumpVersion else a).map
        Asset.key = ws.assets.map Asset.key := by
      rw [List.map_map]
      refine List.map_congr_left fun a _ => ?_
      show Asset.key (ite _ _ _) = _
      split
      · rfl
      · rfl
    rw [hkeys]
    exact ws.unique

def remove (ws : Workspace) (key : Key) : Workspace where
  assets := ws.assets.filter fun a => a.key ≠ key
  promotions := ws.promotions
  dualControl := ws.dualControl
  unique := ws.unique.sublist (List.filter_sublist.map _)

def cleared (ws : Workspace) : Workspace := ⟨[], [], ws.dualControl, List.nodup_nil⟩

def record (ws : Workspace) (p : Promotion) : Workspace :=
  { ws with promotions := p :: ws.promotions }

/-! What is read afterwards -/

theorem get_insert (ws : Workspace) (a : Asset) (h : ws.get a.key = none) (key : Key) :
    (ws.insert a h).get key = if key = a.key then some a else ws.get key := by
  simp only [get, insert, List.find?_append]
  split
  · rename_i hkey
    subst hkey
    rw [show ws.assets.find? (fun b => b.key = a.key) = none from h]
    simp
  · rename_i hkey
    simp [Ne.symm hkey]

theorem get_patch (ws : Workspace) (key : Key) (p : Patch) (bumpVersion : Bool) (key' : Key) :
    (ws.patch key p bumpVersion).get key' =
      if key' = key then (ws.get key).map (·.patched p bumpVersion) else ws.get key' := by
  simp only [get, patch, List.find?_map]
  have hcomp : ((fun a : Asset => decide (a.key = key')) ∘ fun a =>
      if a.key = key then a.patched p bumpVersion else a) = fun a => decide (a.key = key') := by
    funext a
    simp only [Function.comp]
    split <;> rfl
  rw [hcomp]
  split
  · rename_i hkey
    subst hkey
    cases hf : ws.assets.find? fun a => a.key = key' with
    | none => rfl
    | some a => simp [show a.key = key' by simpa using List.find?_some hf]
  · rename_i hkey
    cases hf : ws.assets.find? fun a => a.key = key' with
    | none => rfl
    | some a => grind

theorem get_remove (ws : Workspace) (key key' : Key) :
    (ws.remove key).get key' = if key' = key then none else ws.get key' := by
  simp only [get, remove, List.find?_filter]
  split
  · rename_i hkey
    subst hkey
    simp
  · grind

@[simp] theorem get_record (ws : Workspace) (p : Promotion) (key : Key) :
    (ws.record p).get key = ws.get key := rfl

theorem lastPromotionActor_record (ws : Workspace) (p : Promotion) (key : Key) (toStatus : String) :
    (ws.record p).lastPromotionActor key toStatus =
      if p.key = key ∧ p.toStatus = toStatus then some p.promotedBy
      else ws.lastPromotionActor key toStatus := by
  grind [lastPromotionActor, record]

end Workspace

/-! ### Handlers -/

/-- How a request fails: with an answer, or with an exception nobody caught. -/
inductive Failure
  | http (status : ℕ) (detail : String)
  | raised
  deriving DecidableEq, Repr

abbrev Handler := Prog Workspace Failure

/-- The answer of a test run, and for a rule its expression as text. -/
structure TestRun where
  result : Dict
  expression : Option String

def TestRun.columns (run : TestRun) : Dict :=
  match run.expression with
  | some text => [("expression", .str text)]
  | none => []

structure Services where
  slugify : String → String
  /-- the columns a create or an update stores, from the body it validates -/
  createColumns : Kind → Workspace → Value → Except Failure Dict
  updateColumns : Kind → Workspace → Value → Except Failure Dict
  test : Workspace → Asset → Value → Except Failure TestRun
  /-- `policy_snapshot` -/
  snapshot : Workspace → Asset → Except Failure Value
  /-- the overlap check of `promote_policy` -/
  meceGate : Workspace → Asset → Except Failure Unit
  validateImport : Workspace → Value → Except Failure Unit
  /-- the columns and the version an import stores of an entity -/
  importColumns : Kind → Value → Except Failure (Dict × ℤ)
  storeConnectors : Value → Except Failure Unit

/-- A request decides on the workspace it finds, then writes. -/
def decideThen {α : Type} (decision : Workspace → Except Failure α) (write : α → Handler Unit) :
    Handler Unit := do
  let ws ← Prog.gets fun ws => ws
  let a ← Prog.ofExcept (decision ws)
  write a

/-- `create_variable` and its siblings; an id is stored once. -/
def storageCreate (a : Asset) : Handler Unit := fun ws =>
  if h : ws.get a.key = none then (.ok (), ws.insert a h) else (.error .raised, ws)

/-- `update_variable` and its siblings, on a row that is there. -/
def storageUpdate (key : Key) (p : Patch) (bumpVersion : Bool) : Handler Unit :=
  Prog.modify fun ws => ws.patch key p bumpVersion

def notFound (key : Key) : Failure := .http 404 (key.1.name ++ " '" ++ key.2 ++ "' not found.")

/-- `ensure_exists(getter(id))`. -/
def ensureExists (ws : Workspace) (key : Key) : Except Failure Asset :=
  match ws.get key with
  | some a => .ok a
  | none => .error (notFound key)

/-! ### Create, update, test, delete -/

/-- `status: str = "dev"`. -/
def bodyStatus (body : Value) : Except Failure String :=
  match body.field "status" with
  | none => .ok "dev"
  | some (.str s) => .ok s
  | some _ => .error (.http 422 "Input should be a valid string")

/-- The first of `base_2`, `base_3`, … that is free. -/
def numbered (ws : Workspace) (kind : Kind) (base : String) : String :=
  (((List.range (ws.assets.length + 1)).map fun i => base ++ "_" ++ (i + 2).repr).find?
    fun id => (ws.get (kind, id)).isNone).getD base

def makeId (svc : Services) (ws : Workspace) (kind : Kind) (body : Value) : Except Failure String :=
  let nonempty (s default : String) := if s = "" then default else s
  let requested := ((body.field "id").bind Value.asStr).getD ""
  if requested ≠ "" then
    let candidate := nonempty (svc.slugify requested) requested
    if (ws.get (kind, candidate)).isNone then .ok candidate
    else .error (.http 409 ("id '" ++ candidate ++
      "' already exists. Use PUT to update it, or choose another id."))
  else
    let base := nonempty (svc.slugify (((body.field "name").bind Value.asStr).getD "")) "item"
    if (ws.get (kind, base)).isNone then .ok base else .ok (numbered ws kind base)

/-- A result as `promotion_ready` reads it. -/
def resultPassed (result : Value) : Bool :=
  if result.truthy then
    match result.asDict with
    | some kvs =>
      match kvs.lookup "passed" with
      | some passed => passed.truthy
      | none => match (kvs.lookup "error").getD .null with
        | .null => true
        | .str s => s == ""
        | _ => false
    | none => false
  else false

def promotionReady (a : Asset) : Bool := resultPassed a.lastTestResult

def promotionFlow : String → Option String
  | "dev" => some "uat"
  | "uat" => some "prod"
  | _ => none

def nextStatus (status : String) : Except Failure String :=
  match promotionFlow status with
  | some next => .ok next
  | none => .error (.http 409 "Item is already in PROD.")

section Requests
variable (svc : Services)

def createdAsset (kind : Kind) (body : Value) (ws : Workspace) : Except Failure Asset := do
  let status ← bodyStatus body
  let fields ← svc.createColumns kind ws body
  let id ← makeId svc ws kind body
  return ⟨kind, id, fields, status, .null, 1⟩

def create (kind : Kind) (body : Value) : Handler Unit :=
  decideThen (createdAsset svc kind body) storageCreate

def updatePatch (kind : Kind) (id : String) (body : Value) (ws : Workspace) :
    Except Failure Patch := do
  let status ← bodyStatus body
  let fields ← svc.updateColumns kind ws body
  let _ ← ensureExists ws (kind, id)
  return ⟨fields, some status, none⟩

def update (kind : Kind) (id : String) (body : Value) : Handler Unit :=
  decideThen (updatePatch svc kind id body) fun p => storageUpdate (kind, id) p true

/-- `test_variable_entity` and its siblings; a rule has its expression written anew. -/
def testPatch (kind : Kind) (id : String) (payload : Value) (ws : Workspace) :
    Except Failure Patch := do
  let a ← ensureExists ws (kind, id)
  let run ← svc.test ws a payload
  return ⟨run.columns, none, some (.dict run.result)⟩

def test (kind : Kind) (id : String) (payload : Value) : Handler Unit :=
  decideThen (testPatch svc kind id payload) fun p => storageUpdate (kind, id) p false

def deletable (kind : Kind) (id : String) (ws : Workspace) : Except Failure Key := do
  let a ← ensureExists ws (kind, id)
  if a.status ≠ "dev" then .error (.http 409 "Only DEV assets can be deleted.")
  else return a.key

def delete (kind : Kind) (id : String) : Handler Unit :=
  decideThen (deletable kind id) fun key => Prog.modify fun ws => ws.remove key

/-! ### Promotion -/

/-- `ensure_promotable`, `next_status` and the dual control of `promote_entity`: the status
    the entity goes to. -/
def promotionTarget (ws : Workspace) (actor : String) (a : Asset) : Except Failure String := do
  if promotionReady a = false then
    .error (.http 409 "Latest test must pass before promotion.")
  else
    let target ← nextStatus a.status
    if target = "prod" ∧ ws.dualControl = true ∧ ws.lastPromotionActor a.key "uat" = some actor then
      .error (.http 403 ("Dual control: promotion to production must be approved by a " ++
        "different member than the one who promoted it to UAT."))
    else return target

/-- The entity `promote_entity` finds, and the status it goes to. -/
def promotable (actor entityType id : String) (ws : Workspace) : Except Failure (Asset × String) :=
  match Kind.ofName entityType with
  | none => .error (.http 422 "Unsupported entity type for promotion.")
  | some kind => do
    let a ← ensureExists ws (kind, id)
    let target ← promotionTarget ws actor a
    return (a, target)

/-- `actor if actor != "system" else (promoted_by or "system")`. -/
def ledgerActor (actor promotedBy : String) : String :=
  if actor ≠ "system" then actor else if promotedBy = "" then "system" else promotedBy

/-- The snapshot of a policy is taken before its promotion is recorded. -/
def captured (a : Asset) (ws : Workspace) : Except Failure Unit :=
  if a.kind = .policy then (svc.snapshot ws a).map fun _ => () else .ok ()

def promoteEntity (actor entityType id promotedBy reason : String) : Handler Unit :=
  decideThen (promotable actor entityType id) fun x => do
    storageUpdate x.1.key ⟨[], some x.2, none⟩ false
    decideThen (captured svc x.1) fun _ => Prog.modify fun ws =>
      ws.record ⟨x.1.key, x.1.status, x.2, ledgerActor actor promotedBy, reason⟩

def gated (kind : Kind) (id : String) (skipMece : Bool) (ws : Workspace) : Except Failure Unit :=
  match ws.get (kind, id) with
  | some a => if kind = .policy ∧ skipMece = false then svc.meceGate ws a else .ok ()
  | none => .ok ()

/-- `promote_rule` and its siblings. -/
def promote (actor : String) (kind : Kind) (id promotedBy reason : String) (skipMece : Bool) :
    Handler Unit :=
  decideThen (gated svc kind id skipMece) fun _ =>
    promoteEntity svc actor kind.name id promotedBy reason

structure DeployItem where
  entityType : String
  entityId : String
  promotedBy : String
  reason : String
  deriving DecidableEq

def DeployItem.pair (item : DeployItem) : String × String := (item.entityType, item.entityId)

/-- `_preflight_promotion`; the pairs seen so far come first. -/
def preflight (actor : String) (ws : Workspace) : List (String × String) → List DeployItem →
    Except Failure Unit
  | _, [] => .ok ()
  | seen, item :: items =>
    if item.pair ∈ seen then
      .error (.http 422 (item.entityType ++ " '" ++ item.entityId ++
        "' appears twice in this batch; one promotion advances one stage."))
    else do
      let _ ← promotable actor item.entityType item.entityId ws
      preflight actor ws (item.pair :: seen) items

/-- The promotions of a batch, one after the other. -/
def promoteAll (actor : String) : List DeployItem → Handler Unit
  | [] => return ()
  | item :: items => do
    promoteEntity svc actor item.entityType item.entityId item.promotedBy item.reason
    promoteAll actor items

def deployPromote (actor : String) (items : List DeployItem) : Handler Unit :=
  decideThen (fun ws => preflight actor ws [] items) fun _ => promoteAll svc actor items

/-- The row `create_variable` and its siblings make of an imported entity; its status and
    its last test result are those of the body. -/
def importedAsset (kind : Kind) (item : Value) : Except Failure Asset := do
  let (fields, version) ← svc.importColumns kind item
  match (item.field "id").bind Value.asStr, ((item.field "status").getD (.str "dev")).asStr with
  | some id, some status =>
    return ⟨kind, id, fields, status, (item.field "last_test_result").getD .null, version⟩
  | _, _ => .error .raised

def importAll : List (Kind × Value) → Handler Unit
  | [] => return ()
  | (kind, item) :: items => do
    let a ← Prog.ofExcept (importedAsset svc kind item)
    storageCreate a
    importAll items

/-- The entities of an import in the order they are stored. -/
def importItems (body : Value) : List (Kind × Value) :=
  [(Kind.varDef, "variables"), (.rule, "rules"), (.scorecard, "scorecards"),
    (.policy, "policies")].flatMap fun x =>
      (((body.field x.2).bind Value.asList).getD []).map fun item => (x.1, item)

/-- `require_dual_control` after the settings of an import are merged. -/
def importedDualControl (body : Value) (dualControl : Bool) : Bool :=
  match ((body.field "settings").bind (Value.field "engine_config")).filter fun v => !v.isNull with
  | some config => ((config.field "require_dual_control").getD (.bool false)).truthy
  | none => dualControl

/-- `import_config`, with `replace_all`. -/
def importConfig (body : Value) : Handler Unit :=
  decideThen (fun ws => svc.validateImport ws body) fun _ => do
    Prog.modify Workspace.cleared
    Prog.ofExcept (svc.storeConnectors body)
    importAll svc (importItems body)
    Prog.modify fun ws => { ws with dualControl := importedDualControl body ws.dualControl }

inductive Request
  | create (kind : Kind) (body : Value)
  | update (kind : Kind) (id : String) (body : Value)
  | delete (kind : Kind) (id : String)
  | test (kind : Kind) (id : String) (payload : Value)
  | promote (kind : Kind) (id promotedBy reason : String) (skipMece : Bool)
  | deployPromote (items : List DeployItem)
  | importConfig (body : Value)
  deriving DecidableEq

def handle (actor : String) : Request → Handler Unit
  | .create kind body => create svc kind body
  | .update kind id body => update svc kind id body
  | .delete kind id => delete kind id
  | .test kind id payload => test svc kind id payload
  | .promote kind id promotedBy reason skipMece =>
    promote svc actor kind id promotedBy reason skipMece
  | .deployPromote items => deployPromote svc actor items
  | .importConfig body => importConfig svc body

end Requests

/-! ### What the requests do -/

section Effects
variable {svc : Services} {actor : String} {ws : Workspace}

variable {α : Type} {id status : String}

theorem decideThen_ok {decision : Workspace → Except Failure α} {a : α}
    (write : α → Handler Unit) (h : decision ws = .ok a) :
    decideThen decision write ws = write a ws := by
  simp [decideThen, Prog.bind_apply, Prog.gets, Prog.ofExcept, h]

theorem decideThen_error {decision : Workspace → Except Failure α} {e : Failure}
    (write : α → Handler Unit) (h : decision ws = .error e) :
    decideThen decision write ws = (.error e, ws) := by
  simp [decideThen, Prog.bind_apply, Prog.gets, Prog.ofExcept, h]

variable {key : Key} {a : Asset} {ws' ws₁ : Workspace} {target : String} {req : Request}

theorem ensureExists_ok :
    ensureExists ws key = .ok a ↔ ws.get key = some a := by grind [ensureExists]

def KeepsLedger (ws ws' : Workspace) : Prop :=
  ws'.promotions = ws.promotions ∧ ws'.dualControl = ws.dualControl

theorem KeepsLedger.refl (ws : Workspace) : KeepsLedger ws ws := ⟨rfl, rfl⟩

theorem KeepsLedger.lastPromotionActor (h : KeepsLedger ws ws') (key : Key)
    (status : String) : ws'.lastPromotionActor key status = ws.lastPromotionActor key status := by
  rw [Workspace.lastPromotionActor, h.1]
  rfl

theorem create_apply (svc : Services) (kind : Kind) (body : Value) (ws : Workspace) :
    KeepsLedger ws (create svc kind body ws).2 ∧ ∀ key, (create svc kind body ws).2.get key =
      match createdAsset svc kind body ws with
      | .ok a => if key = a.key ∧ ws.get a.key = none then some a else ws.get key
      | .error _ => ws.get key := by
  cases hd : createdAsset svc kind body ws with
  | error e =>
    rw [create, decideThen_error _ hd]
    exact ⟨.refl ws, fun _ => rfl⟩
  | ok a =>
    rw [create, decideThen_ok _ hd, storageCreate]
    split
    · rename_i hfree
      refine ⟨⟨rfl, rfl⟩, fun key => ?_⟩
      simp [Workspace.get_insert, hfree]
    · rename_i htaken
      exact ⟨.refl ws, fun key => by simp [htaken]⟩

theorem patch_apply {decision : Workspace → Except Failure Patch} (bump : Bool) :
    let after := decideThen decision (fun p => storageUpdate key p bump) ws
    KeepsLedger ws after.2 ∧ ∀ key', after.2.get key' =
      match decision ws with
      | .ok p => if key' = key then (ws.get key).map (·.patched p bump) else ws.get key'
      | .error _ => ws.get key' := by
  cases hd : decision ws with
  | error e =>
    rw [decideThen_error _ hd]
    exact ⟨.refl ws, fun _ => rfl⟩
  | ok p =>
    rw [decideThen_ok _ hd]
    exact ⟨⟨rfl, rfl⟩, fun key' => Workspace.get_patch ws key p bump key'⟩

theorem update_apply (svc : Services) (kind : Kind) (id : String) (body : Value) (ws : Workspace) :
    KeepsLedger ws (update svc kind id body ws).2 ∧ ∀ key, (update svc kind id body ws).2.get key =
      match updatePatch svc kind id body ws with
      | .ok p => if key = (kind, id) then (ws.get (kind, id)).map (·.patched p true) else ws.get key
      | .error _ => ws.get key :=
  patch_apply true

theorem test_apply (svc : Services) (kind : Kind) (id : String) (payload : Value) (ws : Workspace) :
    KeepsLedger ws (test svc kind id payload ws).2 ∧ ∀ key,
      (test svc kind id payload ws).2.get key = match testPatch svc kind id payload ws with
      | .ok p => if key = (kind, id) then (ws.get (kind, id)).map (·.patched p false) else ws.get key
      | .error _ => ws.get key :=
  patch_apply false

theorem delete_apply (kind : Kind) (id : String) (ws : Workspace) :
    KeepsLedger ws (delete kind id ws).2 ∧ ∀ key, (delete kind id ws).2.get key =
      match deletable kind id ws with
      | .ok key' => if key = key' then none else ws.get key
      | .error _ => ws.get key := by
  cases hd : deletable kind id ws with
  | error e =>
    rw [delete, decideThen_error _ hd]
    exact ⟨.refl ws, fun _ => rfl⟩
  | ok key' =>
    rw [delete, decideThen_ok _ hd]
    exact ⟨⟨rfl, rfl⟩, fun key => Workspace.get_remove ws key' key⟩

/-! Promotions -/

structure Untouched (ws ws' : Workspace) (key : Key) : Prop where
  get : ws'.get key = ws.get key
  ledger : ∀ status, ws'.lastPromotionActor key status = ws.lastPromotionActor key status
  dualControl : ws'.dualControl = ws.dualControl

/-- An asset went one stage on, and what the ledger says of it then: a row of this actor
    for the stage it went to, if the asset could be captured. -/
structure Promoted (svc : Services) (actor : String) (ws ws' : Workspace) (a : Asset)
    (target : String) : Prop where
  found : ws.get a.key = some a
  decided : promotionTarget ws actor a = .ok target
  moved : ws'.get a.key = some { a with status := target }
  signed : (∀ ws, captured svc a ws = .ok ()) → ∃ promotedBy, ∀ status,
    ws'.lastPromotionActor a.key status =
      if status = target then some (ledgerActor actor promotedBy)
      else ws.lastPromotionActor a.key status

theorem Untouched.refl (ws : Workspace) (key : Key) : Untouched ws ws key :=
  ⟨rfl, fun _ => rfl, rfl⟩

theorem Untouched.trans {ws₂ : Workspace} (h : Untouched ws ws₁ key)
    (h' : Untouched ws₁ ws₂ key) : Untouched ws ws₂ key :=
  ⟨h'.get.trans h.get, fun status => (h'.ledger status).trans (h.ledger status),
    h'.dualControl.trans h.dualControl⟩

theorem Untouched.promotionTarget {ws' : Workspace} {a : Asset} (h : Untouched ws ws' a.key) :
    promotionTarget ws' actor a = promotionTarget ws actor a := by
  simp only [Assets.promotionTarget, h.ledger, h.dualControl]

theorem Promoted.of_untouched_before
    (h : Untouched ws ws₁ a.key) (hp : Promoted svc actor ws₁ ws' a target) :
    Promoted svc actor ws ws' a target := by
  refine ⟨h.get.symm.trans hp.found, h.promotionTarget.symm.trans hp.decided, hp.moved, ?_⟩
  intro hcap
  obtain ⟨promotedBy, hsigned⟩ := hp.signed hcap
  exact ⟨promotedBy, fun status => by rw [hsigned, h.ledger]⟩

theorem Promoted.of_untouched_after
    (hp : Promoted svc actor ws ws₁ a target) (h : Untouched ws₁ ws' a.key) :
    Promoted svc actor ws ws' a target := by
  refine ⟨hp.found, hp.decided, h.get.trans hp.moved, fun hcap => ?_⟩
  obtain ⟨promotedBy, hsigned⟩ := hp.signed hcap
  exact ⟨promotedBy, fun status => by rw [h.ledger, hsigned]⟩

theorem promotable_ok {entityType : String} :
    promotable actor entityType id ws = .ok (a, target) ↔
      a.kind.name = entityType ∧ a.id = id ∧ ws.get a.key = some a ∧
        promotionTarget ws actor a = .ok target := by
  unfold promotable
  constructor
  · intro h
    split at h
    · cases h
    · rename_i kind hkind
      obtain ⟨b, hb, h⟩ := bind_eq_ok.1 h
      obtain ⟨t, ht, h⟩ := bind_eq_ok.1 h
      cases h
      have hget := ensureExists_ok.1 hb
      have hkey := Workspace.key_of_get hget
      obtain ⟨rfl, rfl⟩ := Prod.mk.injEq .. ▸ hkey
      have hname : a.kind.name = entityType := by simpa using List.find?_some hkind
      exact ⟨hname, rfl, hget, ht⟩
  · rintro ⟨rfl, rfl, hget, ht⟩
    rw [Kind.ofName_name]
    exact bind_eq_ok.2 ⟨a, ensureExists_ok.2 hget, bind_eq_ok.2 ⟨target, ht, rfl⟩⟩

theorem promoteEntity_effect (svc : Services) (actor entityType id promotedBy reason : String)
    (ws : Workspace) :
    let ws' := (promoteEntity svc actor entityType id promotedBy reason ws).2
    match promotable actor entityType id ws with
    | .ok (a, target) =>
      Promoted svc actor ws ws' a target ∧ ∀ key, key ≠ a.key → Untouched ws ws' key
    | .error _ => ws' = ws := by
  generalize hws : (promoteEntity svc actor entityType id promotedBy reason ws).2 = ws'
  cases hd : promotable actor entityType id ws with
  | error e =>
    rw [promoteEntity, decideThen_error _ hd] at hws
    exact hws.symm
  | ok x =>
    obtain ⟨a, target⟩ := x
    obtain ⟨-, -, hget, htarget⟩ := promotable_ok.1 hd
    replace hws : (decideThen (captured svc a) (fun _ => Prog.modify fun ws =>
        ws.record ⟨a.key, a.status, target, ledgerActor actor promotedBy, reason⟩)
        (ws.patch a.key ⟨[], some target, none⟩ false)).2 = ws' := by
      rw [promoteEntity, decideThen_ok _ hd] at hws
      exact hws
    generalize hpatched : ws.patch a.key ⟨[], some target, none⟩ false = patched at hws
    have hmoved : patched.get a.key = some { a with status := target } := by
      rw [← hpatched, Workspace.get_patch, if_pos rfl, hget, Option.map_some, Asset.patched_status]
    have hothers : ∀ key, key ≠ a.key → patched.get key = ws.get key := by
      intro key hne
      rw [← hpatched, Workspace.get_patch, if_neg hne]
    have hledger : KeepsLedger ws patched := hpatched ▸ ⟨rfl, rfl⟩
    show Promoted svc actor ws ws' a target ∧ _
    cases hc : captured svc a patched with
    | error e =>
      rw [decideThen_error _ hc] at hws
      subst hws
      refine ⟨⟨hget, htarget, hmoved, fun hcap => ?_⟩, fun key hne => ?_⟩
      · rw [hcap] at hc
        cases hc
      · exact ⟨hothers key hne, hledger.lastPromotionActor key, hledger.2⟩
    | ok u =>
      rw [decideThen_ok _ hc] at hws
      subst hws
      refine ⟨⟨hget, htarget, hmoved, fun _ => ⟨promotedBy, fun status => ?_⟩⟩, fun key hne => ?_⟩
      · show (Workspace.record _ _).lastPromotionActor _ _ = _
        rw [Workspace.lastPromotionActor_record, hledger.lastPromotionActor]
        simp [eq_comm]
      · refine ⟨hothers key hne, fun status => ?_, hledger.2⟩
        show (Workspace.record _ _).lastPromotionActor _ _ = _
        rw [Workspace.lastPromotionActor_record, hledger.lastPromotionActor]
        simp [Ne.symm hne]

def DeployItem.Names (item : DeployItem) (key : Key) : Prop := item.pair = (key.1.name, key.2)

instance (item : DeployItem) (key : Key) : Decidable (item.Names key) :=
  inferInstanceAs (Decidable (_ = _))

theorem promoteEntity_other {key : Key} {item : DeployItem} (h : ¬ item.Names key) :
    Untouched ws (promoteEntity svc actor item.entityType item.entityId item.promotedBy
      item.reason ws).2 key := by
  have heffect := promoteEntity_effect svc actor item.entityType item.entityId item.promotedBy
    item.reason ws
  cases hd : promotable actor item.entityType item.entityId ws with
  | error e => simp_all [Untouched.refl]
  | ok x => grind [promotable_ok, DeployItem.Names, DeployItem.pair, Asset.key]

theorem promoteAll_other {key : Key} : ∀ {items : List DeployItem} {ws : Workspace},
    (∀ item ∈ items, ¬ item.Names key) → Untouched ws (promoteAll svc actor items ws).2 key
  | [], ws, _ => .refl ws key
  | item :: items, ws, h => by
    have hhead : Untouched ws (promoteEntity svc actor item.entityType item.entityId
        item.promotedBy item.reason ws).2 key := promoteEntity_other (h item List.mem_cons_self)
    rw [promoteAll, Prog.bind_apply]
    cases hp : promoteEntity svc actor item.entityType item.entityId item.promotedBy
        item.reason ws with
    | mk r ws₁ =>
      rw [hp] at hhead
      cases r with
      | error e => exact hhead
      | ok u => exact hhead.trans (promoteAll_other fun x hx => h x (List.mem_cons_of_mem _ hx))

/-- A key the request may promote: untouched, or promoted once from where it was found. -/
def PromotedOrNot (svc : Services) (actor : String) (ws ws' : Workspace) (key : Key) : Prop :=
  Untouched ws ws' key ∨ ∃ a target, a.key = key ∧ Promoted svc actor ws ws' a target

theorem promoteEntity_key (svc : Services) (actor entityType id promotedBy reason : String)
    (ws : Workspace) (key : Key) :
    PromotedOrNot svc actor ws (promoteEntity svc actor entityType id promotedBy reason ws).2
      key := by
  have heffect := promoteEntity_effect svc actor entityType id promotedBy reason ws
  cases hd : promotable actor entityType id ws with
  | error e =>
    rw [hd] at heffect
    exact Or.inl (heffect.symm ▸ Untouched.refl ws key)
  | ok x =>
    obtain ⟨a, target⟩ := x
    rw [hd] at heffect
    by_cases hkey : key = a.key
    · exact Or.inr ⟨a, target, hkey.symm, heffect.1⟩
    · exact Or.inl (heffect.2 key hkey)

theorem promoteAll_effect {key : Key} : ∀ {items : List DeployItem} {ws : Workspace},
    (items.map DeployItem.pair).Nodup →
      PromotedOrNot svc actor ws (promoteAll svc actor items ws).2 key
  | [], ws, _ => Or.inl (.refl ws key)
  | item :: items, ws, h => by
    obtain ⟨hfirst, hrest⟩ := List.nodup_cons.1 h
    have hhead := promoteEntity_key svc actor item.entityType item.entityId item.promotedBy
      item.reason ws key
    have hother : ¬ item.Names key → Untouched ws (promoteEntity svc actor item.entityType
        item.entityId item.promotedBy item.reason ws).2 key := promoteEntity_other
    rw [promoteAll, Prog.bind_apply]
    cases hp : promoteEntity svc actor item.entityType item.entityId item.promotedBy
        item.reason ws with
    | mk r ws₁ =>
      rw [hp] at hhead hother
      cases r with
      | error e => exact hhead
      | ok u =>
        by_cases hnames : item.Names key
        · have huntouched : Untouched ws₁ (promoteAll svc actor items ws₁).2 key := by
            refine promoteAll_other fun x hx hxkey => hfirst ?_
            rw [hnames.trans hxkey.symm]
            exact List.mem_map_of_mem hx
          rcases hhead with hhead | ⟨a, target, rfl, hhead⟩
          · exact Or.inl (hhead.trans huntouched)
          · exact Or.inr ⟨a, target, rfl, hhead.of_untouched_after huntouched⟩
        · have htail : PromotedOrNot svc actor ws₁ (promoteAll svc actor items ws₁).2 key :=
            promoteAll_effect hrest
          rcases htail with h₁ | ⟨a, target, rfl, h₁⟩
          · exact Or.inl ((hother hnames).trans h₁)
          · exact Or.inr ⟨a, target, rfl, h₁.of_untouched_before (hother hnames)⟩

theorem preflight_nodup : ∀ {items : List DeployItem} {seen : List (String × String)},
    preflight actor ws seen items = .ok () →
      (items.map DeployItem.pair).Nodup ∧ ∀ item ∈ items, item.pair ∉ seen
  | [], _, _ => ⟨List.nodup_nil, List.forall_mem_nil _⟩
  | item :: items, seen, h => by
    rw [preflight] at h
    split at h
    · cases h
    · rename_i hnew
      obtain ⟨x, -, h⟩ := bind_eq_ok.1 h
      obtain ⟨hnodup, hseen⟩ := preflight_nodup h
      refine ⟨?_, ?_⟩
      · simp_all
      · simp_all

def Request.promotes : Request → Key → Bool
  | .promote kind id _ _ _, key => key = (kind, id)
  | .deployPromote items, key => items.any fun item => item.Names key
  | _, _ => false

/-- A promotion request promotes what it names by one stage, or leaves it alone; it writes
    about no other key. -/
theorem promotes_effect (svc : Services) (actor : String) (ws : Workspace)
    (h : req.promotes key = true) :
    PromotedOrNot svc actor ws (handle svc actor req ws).2 key := by
  cases req with
  | promote kind id promotedBy reason skipMece =>
    show PromotedOrNot svc actor ws (promote svc actor kind id promotedBy reason skipMece ws).2 key
    cases hd : gated svc kind id skipMece ws with
    | error e =>
      rw [promote, decideThen_error _ hd]
      exact Or.inl (.refl ws key)
    | ok u => simp_all [promote, decideThen_ok, promoteEntity_key]
  | deployPromote items =>
    show PromotedOrNot svc actor ws (deployPromote svc actor items ws).2 key
    cases hd : preflight actor ws [] items with
    | error e =>
      rw [deployPromote, decideThen_error _ hd]
      exact Or.inl (.refl ws key)
    | ok u =>
      rw [deployPromote, decideThen_ok _ hd]
      exact promoteAll_effect (preflight_nodup hd).1
  | create kind body => cases h
  | update kind id body => cases h
  | delete kind id => cases h
  | test kind id payload => cases h
  | importConfig body => cases h

theorem promote_other {kind : Kind} {promotedBy reason : String} {skipMece : Bool}
    (h : key ≠ (kind, id)) :
    Untouched ws (promote svc actor kind id promotedBy reason skipMece ws).2 key := by
  cases hd : gated svc kind id skipMece ws with
  | error e =>
    rw [promote, decideThen_error _ hd]
    exact .refl ws key
  | ok u =>
    rw [promote, decideThen_ok _ hd]
    have hother : ¬ DeployItem.Names ⟨kind.name, id, promotedBy, reason⟩ key := by
      intro hnames
      obtain ⟨hname, hid⟩ := Prod.mk.inj hnames
      have hkind : Kind.ofName kind.name = Kind.ofName key.1.name := congrArg Kind.ofName hname
      rw [Kind.ofName_name, Kind.ofName_name] at hkind
      exact h (Prod.ext (Option.some.inj hkind).symm hid.symm)
    exact promoteEntity_other hother

theorem deployPromote_other {items : List DeployItem} (h : ∀ item ∈ items, ¬ item.Names key) :
    Untouched ws (deployPromote svc actor items ws).2 key := by
  cases hd : preflight actor ws [] items with
  | error e =>
    rw [deployPromote, decideThen_error _ hd]
    exact .refl ws key
  | ok u =>
    rw [deployPromote, decideThen_ok _ hd]
    exact promoteAll_other h

/-! Import -/

/-- The rows an import stores, over the ids taken already: those before the first entity
    that is no row, or whose id is taken. -/
def importable (svc : Services) : List Key → List (Kind × Value) → List Asset
  | _, [] => []
  | taken, (kind, item) :: items =>
    match importedAsset svc kind item with
    | .ok a => if a.key ∈ taken then [] else a :: importable svc (taken ++ [a.key]) items
    | .error _ => []

theorem importAll_assets (svc : Services) : ∀ (items : List (Kind × Value)) (ws : Workspace),
    KeepsLedger ws (importAll svc items ws).2 ∧ (importAll svc items ws).2.assets =
      ws.assets ++ importable svc (ws.assets.map Asset.key) items
  | [], ws => ⟨.refl ws, (List.append_nil _).symm⟩
  | (kind, item) :: items, ws => by
    rw [importAll, Prog.bind_apply, importable]
    cases ha : importedAsset svc kind item with
    | error e => exact ⟨.refl ws, (List.append_nil _).symm⟩
    | ok a =>
      simp only [Prog.ofExcept, Prog.bind_apply, storageCreate]
      by_cases hfree : ws.get a.key = none
      · obtain ⟨hledger, hassets⟩ := importAll_assets svc items (ws.insert a hfree)
        rw [dif_pos hfree, if_neg (Workspace.get_eq_none.1 hfree)]
        refine ⟨hledger, hassets.trans ?_⟩
        simp [Workspace.insert]
      · have htaken : a.key ∈ ws.assets.map Asset.key :=
          not_not.1 fun h => hfree (Workspace.get_eq_none.2 h)
        rw [dif_neg hfree, if_pos htaken]
        exact ⟨.refl ws, (List.append_nil _).symm⟩

theorem mem_importable {a : Asset} : ∀ {items : List (Kind × Value)} {taken : List Key},
    a ∈ importable svc taken items → ∃ x ∈ items, importedAsset svc x.1 x.2 = .ok a
  | [], _, h => absurd h (List.not_mem_nil)
  | (kind, item) :: items, taken, h => by
    rw [importable] at h
    cases hb : importedAsset svc kind item with
    | error e => simp [hb] at h
    | ok b =>
      simp only [hb] at h
      split at h
      · cases h
      · rcases List.mem_cons.1 h with rfl | h
        · exact ⟨(kind, item), List.mem_cons_self, hb⟩
        · obtain ⟨x, hx, hax⟩ := mem_importable h
          exact ⟨x, List.mem_cons_of_mem _ hx, hax⟩

theorem import_apply (svc : Services) (body : Value) (ws : Workspace) :
    match svc.validateImport ws body with
    | .error _ => (importConfig svc body ws).2 = ws
    | .ok _ => (importConfig svc body ws).2.promotions = [] ∧
      (importConfig svc body ws).2.assets = match svc.storeConnectors body with
        | .error _ => []
        | .ok _ => importable svc [] (importItems body) := by
  cases hd : svc.validateImport ws body with
  | error e => simp_all [importConfig, decideThen_error]
  | ok u =>
    rw [importConfig, decideThen_ok _ hd]
    simp only [Prog.modify, Prog.bind_apply, Prog.ofExcept]
    cases hc : svc.storeConnectors body with
    | error e => exact ⟨rfl, rfl⟩
    | ok u =>
      obtain ⟨hledger, hassets⟩ := importAll_assets svc (importItems body) ws.cleared
      simp only [Workspace.cleared, List.nil_append, List.map_nil] at hledger hassets ⊢
      cases hall : importAll svc (importItems body) ⟨[], [], ws.dualControl, List.nodup_nil⟩ with
      | mk r ws' =>
        rw [hall] at hledger hassets
        cases r with
        | error e => exact ⟨hledger.1, hassets⟩
        | ok u => exact ⟨hledger.1, hassets⟩

/-! ### Where a status comes from -/

/-- The request writes this status for the key, without promoting it. -/
def Request.Writes (svc : Services) (ws : Workspace) (key : Key) (status : String) : Request → Prop
  | .create kind body => ∃ a, createdAsset svc kind body ws = .ok a ∧ ws.get a.key = none ∧
      a.key = key ∧ a.status = status
  | .update kind id body => key = (kind, id) ∧
      ∃ p, updatePatch svc kind id body ws = .ok p ∧ p.status = some status
  | .importConfig body => svc.validateImport ws body = .ok () ∧ svc.storeConnectors body = .ok () ∧
      ∃ a ∈ importable svc [] (importItems body), a.key = key ∧ a.status = status
  | _ => False

theorem statusOf_of_writes (h : req.Writes svc ws key status) :
    (handle svc actor req ws).2.statusOf key = some status := by
  cases req with
  | create kind body =>
    obtain ⟨a, ha, hfree, rfl, rfl⟩ := h
    have hget := (create_apply svc kind body ws).2 a.key
    simp only [ha, hfree, and_self, if_true] at hget
    show Option.map _ ((create svc kind body ws).2.get a.key) = _
    rw [hget]
    rfl
  | update kind id body =>
    obtain ⟨rfl, p, hp, hstatus⟩ := h
    obtain ⟨a, ha⟩ : ∃ a, ws.get (kind, id) = some a := by
      obtain ⟨s, -, hp⟩ := bind_eq_ok.1 hp
      grind [bind_eq_ok, ensureExists_ok]
    have hget := (update_apply svc kind id body ws).2 (kind, id)
    simp only [hp, if_true, ha, Option.map_some] at hget
    show Option.map _ ((update svc kind id body ws).2.get (kind, id)) = _
    rw [hget]
    simp [Asset.patched, hstatus]
  | importConfig body =>
    obtain ⟨hvalid, hconnectors, a, ha, rfl, rfl⟩ := h
    have hassets := import_apply svc body ws
    rw [hvalid, hconnectors] at hassets
    show Option.map _ ((importConfig svc body ws).2.get a.key) = _
    rw [Workspace.get_of_mem (hassets.2 ▸ ha)]
    rfl
  | delete kind id => exact h.elim
  | test kind id payload => exact h.elim
  | promote kind id promotedBy reason skipMece => exact h.elim
  | deployPromote items => exact h.elim

theorem statusOf_handle
    (hno : req.promotes key = false) (h : (handle svc actor req ws).2.statusOf key = some status) :
    ws.statusOf key = some status ∨ req.Writes svc ws key status := by
  have hsame : ∀ {ws' : Workspace}, ws'.get key = ws.get key → ws'.statusOf key = some status →
      ws.statusOf key = some status := fun hget h => (congrArg (Option.map _) hget).symm.trans h
  cases req with
  | create kind body =>
    have hget := (create_apply svc kind body ws).2 key
    cases ha : createdAsset svc kind body ws with
    | error e =>
      rw [ha] at hget
      exact Or.inl (hsame hget h)
    | ok a =>
      rw [ha] at hget
      by_cases hnew : key = a.key ∧ ws.get a.key = none
      · obtain ⟨rfl, hfree⟩ := hnew
        simp only [hfree, and_self, if_true] at hget
        have hstatus : some a.status = some status :=
          (congrArg (Option.map Asset.status) hget).symm.trans h
        exact Or.inr ⟨a, ha, hfree, rfl, Option.some.inj hstatus⟩
      · simp only [hnew, if_false] at hget
        exact Or.inl (hsame hget h)
  | update kind id body =>
    have hget := (update_apply svc kind id body ws).2 key
    cases hp : updatePatch svc kind id body ws with
    | error e =>
      rw [hp] at hget
      exact Or.inl (hsame hget h)
    | ok p =>
      simp only [hp] at hget
      split at hget
      · rename_i hkey
        obtain ⟨s, -, hbody⟩ := bind_eq_ok.1 hp
        obtain ⟨fields, -, hbody⟩ := bind_eq_ok.1 hbody
        obtain ⟨a, ha, hbody⟩ := bind_eq_ok.1 hbody
        cases hbody
        rw [ensureExists_ok.1 ha, Option.map_some] at hget
        have hstatus : some s = some status :=
          (congrArg (Option.map Asset.status) hget).symm.trans h
        exact Or.inr ⟨hkey, _, hp, hstatus⟩
      · exact Or.inl (hsame hget h)
  | delete kind id =>
    have hget := (delete_apply kind id ws).2 key
    cases hd : deletable kind id ws with
    | error e =>
      rw [hd] at hget
      exact Or.inl (hsame hget h)
    | ok key' =>
      simp only [hd] at hget
      split at hget
      · have hnone : none = some status := (congrArg (Option.map Asset.status) hget).symm.trans h
        cases hnone
      · exact Or.inl (hsame hget h)
  | test kind id payload =>
    have hget := (test_apply svc kind id payload ws).2 key
    cases hp : testPatch svc kind id payload ws with
    | error e =>
      rw [hp] at hget
      exact Or.inl (hsame hget h)
    | ok p =>
      simp only [hp] at hget
      split at hget
      · rename_i hkey
        obtain ⟨a, ha, hbody⟩ := bind_eq_ok.1 hp
        obtain ⟨run, -, hbody⟩ := bind_eq_ok.1 hbody
        cases hbody
        rw [ensureExists_ok.1 ha, Option.map_some] at hget
        have hstatus : some a.status = some status :=
          (congrArg (Option.map Asset.status) hget).symm.trans h
        simp_all [Workspace.statusOf, ensureExists_ok]
      · exact Or.inl (hsame hget h)
  | importConfig body =>
    have hassets := import_apply svc body ws
    cases hvalid : svc.validateImport ws body with
    | error e =>
      rw [hvalid] at hassets
      exact Or.inl (hsame (congrArg (Workspace.get · key) hassets) h)
    | ok u =>
      rw [hvalid] at hassets
      obtain ⟨a, ha, hstatus⟩ := Option.map_eq_some_iff.1 h
      have hkey := Workspace.key_of_get ha
      have hmem : a ∈ (importConfig svc body ws).2.assets := Workspace.mem_of_get ha
      rw [hassets.2] at hmem
      cases hconnectors : svc.storeConnectors body with
      | error e =>
        rw [hconnectors] at hmem
        cases hmem
      | ok u =>
        rw [hconnectors] at hmem
        exact Or.inr ⟨hvalid, hconnectors, a, hmem, hkey, hstatus⟩
  | promote kind id promotedBy reason skipMece =>
    refine Or.inl (hsame ?_ h)
    have hne : key ≠ (kind, id) := by simpa [Request.promotes] using hno
    exact (promote_other hne).get
  | deployPromote items =>
    refine Or.inl (hsame ?_ h)
    have hnot : ∀ item ∈ items, ¬ item.Names key := by simpa [Request.promotes] using hno
    exact (deployPromote_other hnot).get

end Effects

end RuleMind.Assets
