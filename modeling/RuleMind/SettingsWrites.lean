/-
  Writers of the workspace settings: `update_settings` of `app/storage.py` under the routes of
  `app/routers/runtime.py` and `app/routers/governance.py` and under `app/shadow.py`.

  A writer reads the row to make its patch, where the patch needs it, `update_settings` reads the
  row again, and a later transaction writes every column.  The transactions of any number of
  writers interleave.
-/
import RuleMind.Lib.Run
import RuleMind.Value

namespace RuleMind.SettingsWrites

open Lib

/-! ### The row and `update_settings` -/

structure Setting where
  apiBaseUrl : String
  authConfig : Value
  engineConfig : Value
  sourceDefaults : Value
  auditRetentionDays : ℤ
  auditRetentionMonths : Option ℤ
  themeMode : String
  branding : Value

/-- `DEFAULT_SETTINGS`; without a row `get_settings` answers with it. -/
def DEFAULT_SETTINGS : Setting where
  apiBaseUrl := "http://localhost:8080"
  authConfig := .dict [("method", .str "bearer"), ("token", .str "")]
  engineConfig :=
    .dict [("python_version", .str "3.11"), ("timeout_ms", .int 2000), ("memory_mb", .int 128)]
  sourceDefaults := .dict [("default_format", .str "json"), ("batch_support", .bool true),
    ("active_sources", .list [.str "bureau", .str "bank", .str "gst", .str "device", .str "kyc"])]
  auditRetentionDays := 90
  auditRetentionMonths := none
  themeMode := "light"
  branding := .dict [("brandName", .str ""), ("logoText", .str ""), ("accent", .str ""),
    ("accentText", .str ""), ("background", .str ""), ("sidebar", .str ""),
    ("hiddenNav", .list [])]

/-- The values of a patch that are not `None`. -/
structure Patch where
  apiBaseUrl : Option String := none
  authConfig : Option Value := none
  engineConfig : Option Value := none
  sourceDefaults : Option Value := none
  auditRetentionDays : Option ℤ := none
  auditRetentionMonths : Option ℤ := none
  themeMode : Option String := none
  branding : Option Value := none

/-- `archiver.MAX_RETENTION_MONTHS`. -/
def MAX_RETENTION_MONTHS : ℤ := 1200

def normalizeRetentionMonths (months : ℤ) : Option ℤ :=
  if months ≤ 0 then none else some (min months MAX_RETENTION_MONTHS)

/-- `value or {}`. -/
def orEmpty (v : Value) : Value := Value.orElse (some v) (.dict [])

def getSettings (row : Option Setting) : Setting :=
  row.elim DEFAULT_SETTINGS fun row =>
    { row with
      authConfig := orEmpty row.authConfig
      engineConfig := orEmpty row.engineConfig
      sourceDefaults := orEmpty row.sourceDefaults
      branding := orEmpty row.branding }

/-- The write of `update_settings`: `current` is what it has read, `row` what it finds.
    `windowDays` is `retention_window_days` at the moment of the write. -/
def write (windowDays : ℤ → ℤ) (row current : Setting) (p : Patch) : Setting :=
  let days := p.auditRetentionDays.getD current.auditRetentionDays
  { apiBaseUrl := p.apiBaseUrl.getD current.apiBaseUrl
    authConfig := p.authConfig.getD current.authConfig
    engineConfig := p.engineConfig.getD current.engineConfig
    sourceDefaults := p.sourceDefaults.getD current.sourceDefaults
    themeMode := p.themeMode.getD current.themeMode
    branding := orEmpty (p.branding.getD current.branding)
    auditRetentionMonths :=
      match p.auditRetentionMonths, p.auditRetentionDays with
      | some months, _ => normalizeRetentionMonths months
      | none, some _ => none
      | none, none => row.auditRetentionMonths
    auditRetentionDays :=
      match p.auditRetentionMonths with
      | some months => (normalizeRetentionMonths months).elim days windowDays
      | none => days }

/-! ### The writers -/

inductive Request
  /-- `PUT /api/v1/settings`. -/
  | settings (p : Patch) (engineConfig : Option Dict)
  /-- `PUT /api/v1/settings/data-protection`. -/
  | dataProtection (days months : Option ℤ) (piiRedactKeys : Option (List String))
  /-- `PUT /api/v1/settings/governance`. -/
  | governance (requireDualControl : Option Bool)
  /-- `PUT /api/v1/settings/slo`. -/
  | slo (body : Dict)
  | registerShadow (live candidate : String)
  | unregisterShadow (live : String)

/-- `cfg.get("shadow_map", {})`; nothing where another value than an object is there. -/
def shadowMap (engine : Dict) : Option Dict := ((engine.lookup "shadow_map").getD (.dict [])).asDict

/-- `str(k).strip()`, the empty ones left out. -/
def stripKeys (keys : List String) : List Value :=
  ((keys.map fun k => String.ofList (pyStrip k.toList)).filter (· ≠ "")).map Value.str

/-- `dict(settings.get("engine_config", {}) or {})`. -/
def Setting.engine (read : Setting) : Option Dict := (orEmpty read.engineConfig).asDict

/-- Whether a request reads the row for its patch. -/
def Request.reads : Request → Bool
  | .settings _ engineConfig => engineConfig.isSome
  | .governance requireDualControl => requireDualControl.isSome
  | _ => true

/-- The patch that a request makes of the row it reads; nothing where it raises, or does not
    write. -/
def Request.patch (policyExists : String → Bool) (r : Request) (read : Setting) : Option Patch :=
  match r with
  | .settings p none => some { p with engineConfig := none }
  | .settings p (some e) => read.engine.map fun engine =>
      { p with engineConfig := some (.dict (updateKeys engine e)) }
  | .dataProtection days months keys =>
    let columns : Patch :=
      { auditRetentionDays := days.map (max 1), auditRetentionMonths := months.map (max 0) }
    match keys with
    | none => if days.isNone && months.isNone then none else some columns
    | some keys => read.engine.map fun engine =>
        { columns with
          engineConfig := some (.dict (setKey engine "pii_redact_keys" (.list (stripKeys keys)))) }
  | .governance requireDualControl => requireDualControl.bind fun on =>
      read.engine.map fun engine =>
        { engineConfig := some (.dict (setKey engine "require_dual_control" (.bool on))) }
  | .slo body => read.engine.bind fun engine =>
      (Value.orElse (engine.lookup "slo") (.dict [])).asDict.map fun stored =>
        { engineConfig := some (.dict (setKey engine "slo" (.dict (updateKeys stored body)))) }
  | .registerShadow live candidate =>
    if policyExists live && policyExists candidate then
      read.engine.bind fun cfg => (shadowMap cfg).map fun shadow =>
        { engineConfig := some (.dict (setKey cfg "shadow_map"
            (.dict (setKey shadow live (.str candidate))))) }
    else none
  | .unregisterShadow live =>
    read.engine.bind fun cfg => (shadowMap cfg).map fun shadow =>
      { engineConfig := some (.dict (setKey cfg "shadow_map"
          (.dict (shadow.filter (·.1 ≠ live))))) }

inductive Phase
  | called
  /-- The patch is made, of the row that was read for it. -/
  | patched (read : Option Setting) (p : Patch)
  /-- `update_settings` has read the row. -/
  | merged (read : Option Setting) (p : Patch) (current : Setting)
  | returned

/-- A commit: the writer, and the row it has written. -/
structure Commit where
  writer : ℕ
  row : Setting

structure State where
  row : Option Setting
  phase : ℕ → Phase
  /-- The newest first. -/
  commits : List Commit

/-- What writers meet: the policies, and the length of a window of months at a writer's write. -/
structure Workspace where
  policyExists : String → Bool
  windowDays : ℕ → ℤ → ℤ

def State.setPhase (s : State) (i : ℕ) (p : Phase) : State :=
  { s with phase := Function.update s.phase i p }

variable (W : Workspace) (requests : List Request)

def step (s : State) (i : ℕ) : Option State :=
  match requests[i]? with
  | none => none
  | some r =>
    match s.phase i with
    | .called =>
      let read := getSettings s.row
      match r.patch W.policyExists read with
      | none => some (s.setPhase i .returned)
      | some p => some (s.setPhase i (.patched (if r.reads then some read else none) p))
    | .patched read p => some (s.setPhase i (.merged read p (getSettings s.row)))
    | .merged _ p current =>
      let row := write (W.windowDays i) (getSettings s.row) current p
      some { s.setPhase i .returned with row := some row, commits := ⟨i, row⟩ :: s.commits }
    | .returned => none

def State.init (row : Option Setting) : State := ⟨row, fun _ => .called, []⟩

/-! ### What a writer is about -/

/-- A field of the row; the keys of `engine_config` are fields of their own. -/
inductive Field
  | apiBaseUrl
  | authConfig
  | engine (key : String)
  | sourceDefaults
  | auditRetentionDays
  | auditRetentionMonths
  | themeMode
  | branding
  deriving DecidableEq

def Field.get (row : Setting) : Field → Option Value
  | .apiBaseUrl => some (.str row.apiBaseUrl)
  | .authConfig => some (orEmpty row.authConfig)
  | .engine key => (orEmpty row.engineConfig).field key
  | .sourceDefaults => some (orEmpty row.sourceDefaults)
  | .auditRetentionDays => some (.int row.auditRetentionDays)
  | .auditRetentionMonths => row.auditRetentionMonths.map Value.int
  | .themeMode => some (.str row.themeMode)
  | .branding => some (orEmpty row.branding)

/-- The keys of `engine_config` that a request names. -/
def Request.engineKeys : Request → List String
  | .settings _ engineConfig => (engineConfig.getD []).map Prod.fst
  | .dataProtection _ _ keys => if keys.isSome then ["pii_redact_keys"] else []
  | .governance on => if on.isSome then ["require_dual_control"] else []
  | .slo _ => ["slo"]
  | .registerShadow _ _ => ["shadow_map"]
  | .unregisterShadow _ => ["shadow_map"]

/-- The columns that a request names, `engine_config` apart. -/
def Request.columns : Request → Patch
  | .settings p _ => { p with engineConfig := none }
  | .dataProtection days months _ =>
    { auditRetentionDays := days.map (max 1), auditRetentionMonths := months.map (max 0) }
  | _ => {}

/-- Whether a request names a field.  Days turn months off, and months set the days. -/
def Request.names (r : Request) : Field → Bool
  | .apiBaseUrl => r.columns.apiBaseUrl.isSome
  | .authConfig => r.columns.authConfig.isSome
  | .engine key => r.engineKeys.contains key
  | .sourceDefaults => r.columns.sourceDefaults.isSome
  | .auditRetentionDays => r.columns.auditRetentionDays.isSome ||
      (r.columns.auditRetentionMonths.bind normalizeRetentionMonths).isSome
  | .auditRetentionMonths => r.columns.auditRetentionMonths.isSome ||
      r.columns.auditRetentionDays.isSome
  | .themeMode => r.columns.themeMode.isSome
  | .branding => r.columns.branding.isSome

def Request.alone (W : Workspace) (i : ℕ) (r : Request) (row : Option Setting) : Option Setting :=
  match r.patch W.policyExists (getSettings row) with
  | none => row
  | some p => some (write (W.windowDays i) (getSettings row) (getSettings row) p)

/-- The row after the writers of some commits, one after the other. -/
def serial (row₀ : Option Setting) (commits : List Commit) : Option Setting :=
  commits.foldr (fun c row => requests[c.writer]?.elim row fun r => r.alone W c.writer row) row₀

def lastWriter (f : Field) (commits : List Commit) : Option Commit :=
  commits.find? fun c => requests[c.writer]?.any (·.names f)

/-- A writer finds the row, when it writes, as it has read it. -/
def Undisturbed (s : State) (i : ℕ) : Prop :=
  match s.phase i with
  | .merged read _ current =>
    current = getSettings s.row ∧ ∀ x, read = some x → x = getSettings s.row
  | _ => True

/-! ### One writer -/

theorem lookup_updateKeys {d e : Dict} {key : String} (h : key ∉ e.map Prod.fst) :
    (updateKeys d e).lookup key = d.lookup key := by
  induction e generalizing d with
  | nil => rfl
  | cons kv e ih =>
    have hne : key ≠ kv.1 := List.ne_of_not_mem_cons h
    have hrest : key ∉ e.map Prod.fst := List.not_mem_of_not_mem_cons h
    show (updateKeys (setKey d kv.1 kv.2) e).lookup key = _
    rw [ih hrest, lookup_setKey, if_neg hne]

theorem orEmpty_dict (d : Dict) : orEmpty (.dict d) = .dict d := by
  cases d with
  | nil => rfl
  | cons e d => rfl

theorem orEmpty_idem (v : Value) : orEmpty (orEmpty v) = orEmpty v := by
  by_cases hv : v.truthy = true
  · have hsame : orEmpty v = v := if_pos hv
    rw [hsame, hsame]
  · have hempty : orEmpty v = .dict [] := if_neg hv
    rw [hempty, orEmpty_dict]

theorem get_getSettings (row : Setting) (f : Field) :
    f.get (getSettings (some row)) = f.get row := by
  cases f with
  | authConfig => exact congrArg some (orEmpty_idem row.authConfig)
  | engine key => exact congrArg (Value.field key) (orEmpty_idem row.engineConfig)
  | sourceDefaults => exact congrArg some (orEmpty_idem row.sourceDefaults)
  | branding => exact congrArg some (orEmpty_idem row.branding)
  | apiBaseUrl => rfl
  | auditRetentionDays => rfl
  | auditRetentionMonths => rfl
  | themeMode => rfl

variable {W : Workspace} {exists_ : String → Bool} {r : Request} {read : Setting} {p : Patch}

theorem patch_columns (h : r.patch exists_ read = some p) :
    { p with engineConfig := none } = r.columns := by
  cases r with
  | settings p' engineConfig =>
    cases engineConfig with
    | none => cases h; rfl
    | some e =>
      obtain ⟨_, _, rfl⟩ := Option.map_eq_some_iff.1 h
      rfl
  | dataProtection days months keys =>
    cases keys with
    | none =>
      rw [Request.patch] at h
      split at h
      · cases h
      · cases h
        rfl
    | some keys =>
      obtain ⟨_, _, rfl⟩ := Option.map_eq_some_iff.1 h
      rfl
  | governance _ | slo _ | unregisterShadow _ =>
    obtain ⟨_, _, h⟩ := Option.bind_eq_some_iff.1 h
    obtain ⟨_, _, rfl⟩ := Option.map_eq_some_iff.1 h
    rfl
  | registerShadow live candidate =>
    rw [Request.patch] at h
    split at h
    · obtain ⟨_, _, h⟩ := Option.bind_eq_some_iff.1 h
      obtain ⟨_, _, rfl⟩ := Option.map_eq_some_iff.1 h
      rfl
    · cases h

theorem field_engine {engine : Dict} (h : read.engine = some engine) (key : String) :
    (orEmpty read.engineConfig).field key = engine.lookup key := by
  rw [Setting.engine] at h
  cases he : orEmpty read.engineConfig with
  | dict d =>
    rw [he] at h
    cases h
    rfl
  | null => rw [he] at h; cases h
  | bool b => rw [he] at h; cases h
  | int n => rw [he] at h; cases h
  | float q => rw [he] at h; cases h
  | inf neg => rw [he] at h; cases h
  | str s => rw [he] at h; cases h
  | list vs => rw [he] at h; cases h

theorem patch_engine (h : r.patch exists_ read = some p) {key : String}
    (hkey : key ∉ r.engineKeys) :
    (orEmpty (p.engineConfig.getD read.engineConfig)).field key =
      (orEmpty read.engineConfig).field key := by
  have hset : ∀ {engine : Dict} {k : String} {v : Value}, read.engine = some engine → key ∉ [k] →
      (orEmpty (.dict (setKey engine k v))).field key = (orEmpty read.engineConfig).field key := by
    intro engine k v he hk
    rw [field_engine he, orEmpty_dict]
    show (setKey engine k v).lookup key = _
    rw [lookup_setKey, if_neg (by simpa using hk)]
  cases r with
  | settings p' engineConfig =>
    cases engineConfig with
    | none => cases h; rfl
    | some e =>
      obtain ⟨engine, he, rfl⟩ := Option.map_eq_some_iff.1 h
      rw [field_engine he]
      show (orEmpty (.dict (updateKeys engine e))).field key = _
      rw [orEmpty_dict]
      exact lookup_updateKeys hkey
  | dataProtection days months keys =>
    cases keys with
    | none => grind [Request.patch]
    | some keys =>
      obtain ⟨engine, he, rfl⟩ := Option.map_eq_some_iff.1 h
      exact hset he hkey
  | governance on =>
    obtain ⟨b, rfl, h⟩ := Option.bind_eq_some_iff.1 h
    obtain ⟨engine, he, rfl⟩ := Option.map_eq_some_iff.1 h
    exact hset he hkey
  | slo _ | unregisterShadow _ =>
    obtain ⟨engine, he, h⟩ := Option.bind_eq_some_iff.1 h
    obtain ⟨_, _, rfl⟩ := Option.map_eq_some_iff.1 h
    exact hset he hkey
  | registerShadow live candidate =>
    rw [Request.patch] at h
    split at h
    · obtain ⟨engine, he, h⟩ := Option.bind_eq_some_iff.1 h
      obtain ⟨_, _, rfl⟩ := Option.map_eq_some_iff.1 h
      exact hset he hkey
    · cases h

theorem patch_of_not_reads (hr : r.reads = false) (h : r.patch exists_ read = some p)
    (x : Setting) : r.patch exists_ x = some p := by
  cases r with
  | settings p' engineConfig =>
    cases engineConfig with
    | none => exact h
    | some e => cases hr
  | governance on =>
    cases on with
    | none => cases h
    | some b => cases hr
  | dataProtection days months keys => cases hr
  | slo body => cases hr
  | registerShadow live candidate => cases hr
  | unregisterShadow live => cases hr

theorem get_write (h : r.patch exists_ read = some p) (windowDays : ℤ → ℤ) {f : Field}
    (hf : r.names f = false) : f.get (write windowDays read read p) = f.get read := by
  have hc := patch_columns h
  obtain ⟨url, auth, engine, sources, days, months, theme, branding⟩ := p
  cases f with
  | engine key => exact patch_engine h (by simpa [Request.names] using hf)
  | apiBaseUrl =>
    rw [Request.names, ← hc] at hf
    cases url with
    | none => rfl
    | some _ => cases hf
  | authConfig =>
    rw [Request.names, ← hc] at hf
    cases auth with
    | none => rfl
    | some _ => cases hf
  | sourceDefaults =>
    rw [Request.names, ← hc] at hf
    cases sources with
    | none => rfl
    | some _ => cases hf
  | themeMode =>
    rw [Request.names, ← hc] at hf
    cases theme with
    | none => rfl
    | some _ => cases hf
  | branding =>
    rw [Request.names, ← hc] at hf
    cases branding with
    | none => exact congrArg some (orEmpty_idem read.branding)
    | some _ => cases hf
  | auditRetentionMonths =>
    rw [Request.names, ← hc] at hf
    cases months with
    | none =>
      cases days with
      | none => rfl
      | some _ => cases hf
    | some _ => cases hf
  | auditRetentionDays =>
    rw [Request.names, ← hc] at hf
    cases days with
    | some _ => cases hf
    | none =>
      cases months with
      | none => rfl
      | some months =>
        have hclear : normalizeRetentionMonths months = none := by simpa using hf
        show some (Value.int ((normalizeRetentionMonths months).elim _ windowDays)) = _
        rw [hclear]
        rfl

/-! ### Every run -/

variable {requests : List Request} {s s' : State} {i : ℕ} {row₀ : Option Setting}

/-- A patch that is made is that of the row read for it. -/
def PhaseOk (W : Workspace) (r : Request) : Phase → Prop
  | .patched read p | .merged read p _ =>
    (∀ x, read = some x → r.patch W.policyExists x = some p) ∧
      (read = none → ∀ x, r.patch W.policyExists x = some p)
  | _ => True

structure Inv (W : Workspace) (requests : List Request) (row₀ : Option Setting) (s : State) :
    Prop where
  phases : ∀ i r, requests[i]? = some r → PhaseOk W r (s.phase i)
  serial : s.row = serial W requests row₀ s.commits
  fields : ∀ f : Field, f.get (getSettings s.row) =
    (lastWriter requests f s.commits).elim (f.get (getSettings row₀)) fun c => f.get c.row

theorem inv_init : Inv W requests row₀ (State.init row₀) where
  phases _ _ _ := trivial
  serial := rfl
  fields _ := rfl

theorem Inv.phases_move (h : Inv W requests row₀ s) (hr : requests[i]? = some r) {q : Phase}
    (hq : PhaseOk W r q) :
    ∀ j r', requests[j]? = some r' → PhaseOk W r' ((s.setPhase i q).phase j) := by
  intro j r' hj
  by_cases hji : j = i
  · subst hji
    rw [hr] at hj
    cases hj
    rw [show (s.setPhase j q).phase j = q from Function.update_self ..]
    exact hq
  · rw [show (s.setPhase i q).phase j = s.phase j from Function.update_of_ne hji ..]
    exact h.phases j r' hj

theorem Inv.setPhase (h : Inv W requests row₀ s) (hr : requests[i]? = some r) {q : Phase}
    (hq : PhaseOk W r q) : Inv W requests row₀ (s.setPhase i q) where
  phases := h.phases_move hr hq
  serial := h.serial
  fields := h.fields

theorem Inv.commit (h : Inv W requests row₀ s) (hr : requests[i]? = some r)
    (hp : r.patch W.policyExists (getSettings s.row) = some p) {row : Setting}
    (hrow : row = write (W.windowDays i) (getSettings s.row) (getSettings s.row) p) :
    Inv W requests row₀
      { s.setPhase i .returned with row := some row, commits := ⟨i, row⟩ :: s.commits } where
  phases := h.phases_move hr (q := .returned) trivial
  serial := by
    show some row = Option.elim requests[i]? _ _
    rw [hr, Option.elim_some, show s.commits.foldr _ row₀ = s.row from h.serial.symm,
      Request.alone, hp, hrow]
  fields f := by
    show f.get (getSettings (some row)) = ((⟨i, row⟩ :: s.commits).find? _).elim _ _
    rw [get_getSettings, List.find?_cons, hr, Option.any_some]
    cases hf : r.names f with
    | true => rfl
    | false =>
      rw [hrow, get_write hp _ hf]
      exact h.fields f

/-- **Every write over what its writer has read keeps the order of the commits.** -/
theorem Inv.step (h : Inv W requests row₀ s) (hok : Undisturbed s i)
    (hs : step W requests s i = some s') : Inv W requests row₀ s' := by
  rw [SettingsWrites.step] at hs
  cases hr : requests[i]? with
  | none => rw [hr] at hs; cases hs
  | some r =>
    have hphase := h.phases i r hr
    rw [hr] at hs
    simp only at hs
    cases hq : s.phase i with
    | called =>
      rw [hq] at hs
      simp only at hs
      cases hp : r.patch W.policyExists (getSettings s.row) with
      | none =>
        rw [hp] at hs
        cases hs
        exact h.setPhase hr trivial
      | some p =>
        rw [hp] at hs
        cases hs
        refine h.setPhase hr ⟨fun x hx => ?_, fun hnone x => ?_⟩
        · simp_all
        · split at hnone
          · cases hnone
          · rename_i hreads
            exact patch_of_not_reads (Bool.eq_false_iff.2 hreads) hp x
    | patched read p =>
      rw [hq] at hs hphase
      cases hs
      exact h.setPhase hr hphase
    | merged read p current =>
      rw [hq] at hs hphase
      rw [Undisturbed, hq] at hok
      obtain ⟨rfl, hread⟩ := hok
      cases hs
      refine h.commit hr ?_ rfl
      cases hx : read with
      | none => exact hphase.2 hx _
      | some x => exact hread x hx ▸ hphase.1 x hx
    | returned => rw [hq] at hs; cases hs

/-- **No settings writer undoes another.**  In a run whose writers find the row as they have read
    it, the row is that of the writers in the order of their commits, and every field is as the
    last writer that names it wrote it. -/
theorem no_write_undone (h : Reach (step W requests) Undisturbed (State.init row₀) s) :
    s.row = serial W requests row₀ s.commits ∧
      ∀ f : Field, f.get (getSettings s.row) = (lastWriter requests f s.commits).elim
        (f.get (getSettings row₀)) fun c => f.get c.row := by
  have hi : Inv W requests row₀ s := h.invariant inv_init fun _ _ _ hi hok hs => hi.step hok hs
  exact ⟨hi.serial, hi.fields⟩

/-- A theme that is saved while dual control is armed. -/
def themeAndControl : List Request :=
  [.settings { themeMode := some "dark" } none, .governance (some true)]

def noPolicies : Workspace := ⟨fun _ => false, fun _ _ => 0⟩

def dualControl (s : State) : Option Value :=
  (Field.engine "require_dual_control").get (getSettings s.row)

theorem one_after_the_other : ∃ s, exec (step noPolicies themeAndControl) (State.init none)
      [1, 1, 1, 0, 0, 0] = some s ∧ dualControl s = some (.bool true) ∧
    (getSettings s.row).themeMode = "dark" ∧
    s.row = serial noPolicies themeAndControl none s.commits := by
  refine ⟨_, rfl, rfl, rfl, (no_write_undone (reach_exec (show exec
    (step noPolicies themeAndControl) (State.init none) [1, 1, 1, 0, 0, 0] = some _ from rfl)
      ?_)).1⟩
  refine ⟨trivial, trivial, ⟨rfl, ?_⟩, trivial, trivial, ⟨rfl, ?_⟩, trivial⟩
  · intro x hx
    cases hx
    rfl
  · intro x hx
    cases hx

/-- The theme's writer reads before dual control is armed, and writes after it. -/
theorem dual_control_undone : ∃ s, exec (step noPolicies themeAndControl) (State.init none)
      [0, 0, 1, 1, 1, 0] = some s ∧
    s.phase 0 = .returned ∧ s.phase 1 = .returned ∧ dualControl s = none ∧
    (lastWriter themeAndControl (.engine "require_dual_control") s.commits).map
      (fun c => (Field.engine "require_dual_control").get c.row) = some (some (.bool true)) :=
  ⟨_, rfl, rfl, rfl, rfl, rfl⟩

end RuleMind.SettingsWrites
