/-
  The writers of the decisions table and the events they leave in the outbox:
  `add_decision` and `add_decisions_batch` of `app/storage.py`, `enqueue` of
  `app/decision_outbox.py`, and the replay of a write-ahead log by
  `_recover_one`.

  Every writer works in a transaction of its own and shows nothing before its
  commit; it may fail or die at any point, before the commit or after it.  An
  insert that meets a key of another transaction fails at the commit at the
  latest.  A log file that no recovery holds may change in any way.
-/
import RuleMind.DeviceIngest
import RuleMind.DecisionOutbox

namespace RuleMind.Announce

open Lib Ingest Outbox

/-! ## Rows and events -/

/-- What the writers take from elsewhere, next to `Ingest.Services`: the topic,
    the text of a JSON column and `serialize_datetime`. -/
structure Publishing where
  config : Config
  json : Dict → String
  serializeDatetime : ℤ → String

/-- A column of text: `None` stays, and what is no text cannot be bound. -/
def textColumn : Value → Option (Option String)
  | .null => some none
  | .str s => some (some s)
  | _ => none

/-- `event_payload`: no column with the subject's data. -/
def eventPayload (pub : Publishing) (decision : Decision) (tenantId : String) : Dict :=
  [("decision_id", .str decision.id),
    ("tenant_id", .str tenantId),
    ("policy_id", decision.policyId),
    ("outcome", decision.outcome),
    ("source", decision.source),
    ("latency_ms", .int decision.latencyMs),
    ("experiment_id", decision.experimentId),
    ("experiment_variant", decision.experimentVariant),
    ("created_at", .str (pub.serializeDatetime decision.createdAt))]

/-- The row `enqueue` adds to the session of the decision. -/
def enqueued (pub : Publishing) (id : String) (tenantId : String) (decision : Decision)
    (now : ℕ) : Event :=
  newEvent pub.config id tenantId decision.id (pub.json (eventPayload pub decision tenantId)) now

def Announces (pub : Publishing) (event : Event) (decision : Decision) : Prop :=
  event.decisionId = decision.id ∧ event.tenantId = decision.tenantId ∧
    event.payload = pub.json (eventPayload pub decision decision.tenantId)

section Rows
variable (py : PyText) (svc : Services)

/-- The row of `add_decision`; `none` where building it raises. -/
def addDecisionRow (uuid : String) (salt : ℕ) (tenant : String) (payload : Dict) (now : ℤ) :
    Option Decision := do
  let preview := (payload.lookup "payload").getD (.dict [])
  let encrypted (column : String) (default : Value) : Value :=
    svc.encrypt salt column ((payload.lookup column).getD default)
  let get (key : String) : Value := (payload.lookup key).getD .null
  let id ← textColumn (Value.orElse (payload.lookup "id") (.str uuid))
  let clientId ← textColumn (either payload "client_id" "clientId")
  let outcome ← payload.lookup "outcome"
  let latency ← (pyIntOf py ((payload.lookup "latency_ms").getD (.int 0))).toOption
  let created ← (parseClientDatetime svc (either payload "created_at" "createdAt")).toOption
  some {
    id := id.getD uuid
    tenantId := tenant
    clientId := clientId
    userId := either payload "user_id" "userId"
    policyId := get "policy_id"
    payloadHash := svc.payloadHash preview
    payloadPreview := svc.encrypt salt "payload_preview" preview
    computedVariables := encrypted "computed_variables" (.dict [])
    ruleResults := encrypted "rule_results" (.list [])
    scorecardResult := encrypted "scorecard_result" .null
    trace := encrypted "trace" (.list [])
    outcome := outcome
    latencyMs := latency
    source := (payload.lookup "source").getD (.str "api")
    sdkVersion := get "sdk_version"
    experimentId := get "experiment_id"
    experimentVariant := get "experiment_variant"
    deviceId := either payload "device_id" "deviceId"
    bundleHash := either payload "bundle_hash" "bundleHash"
    createdAt := created.getD now
    receivedAt := now }

end Rows

/-- The table takes a row: its columns may be null, and neither its id nor its
    client id is there. -/
def Fits (rows : List Decision) (d : Decision) : Prop :=
  d.outcome.isNull = false ∧ d.source.isNull = false ∧
    ∀ r ∈ rows, r.id ≠ d.id ∧ (d.key.isSome = true → r.key ≠ d.key)

instance (rows : List Decision) (d : Decision) : Decidable (Fits rows d) :=
  inferInstanceAs (Decidable (_ ∧ _ ∧ _))

/-- The rows of a transaction still fit at its commit. -/
def FitAll : List Decision → List Decision → Prop
  | _, [] => True
  | rows, d :: ds => Fits rows d ∧ FitAll (rows ++ [d]) ds

instance FitAll.decidable : ∀ rows ds : List Decision, Decidable (FitAll rows ds)
  | _, [] => .isTrue trivial
  | rows, d :: ds =>
    have := FitAll.decidable (rows ++ [d]) ds
    inferInstanceAs (Decidable (Fits rows d ∧ FitAll (rows ++ [d]) ds))

/-! ## Processes -/

/-- The locals of `_recover_one`: `todo` is what the loop over `by_id` has still
    to try, without what the database has. -/
structure Recovery where
  path : ℕ
  todo : List (String × Dict)
  failed : List Dict
  deadLettered : List Dict

/-- Where a process stands.  `caller` is the recovery that called `add_decision`,
    `none` for any other writer. -/
inductive Process where
  | idle
  | recovering (r : Recovery)
  /-- the row is flushed, the event to come -/
  | flushed (caller : Option Recovery) (row : Decision)
  | enqueued (caller : Option Recovery) (row : Decision) (event : Option Event)
  /-- committed; the feed, the meter and the listeners are to come -/
  | committed (caller : Option Recovery)
  /-- inside the transaction of `add_decisions_batch` -/
  | ingesting (k : Call) (rows : List Decision)

/-- The two tables, the log files on disk and the dead-letter file, and the
    processes. -/
structure State where
  decisions : List Decision
  outbox : List Event
  file : ℕ → Option (List Dict)
  lock : ℕ → Option ℕ
  deadLetter : List Dict
  process : ℕ → Process

def State.init (file : ℕ → Option (List Dict)) : State :=
  ⟨[], [], file, fun _ => none, [], fun _ => .idle⟩

def State.go (s : State) (p : ℕ) (process : Process) : State :=
  { s with process := Function.update s.process p process }

def State.unlock (s : State) (p : ℕ) : State :=
  { s with lock := fun path => if s.lock path = some p then none else s.lock path }

inductive Act where
  /-- `add_decision`, with the tenant that `_tenant_id` gives -/
  | add (p : ℕ) (payload : Dict) (tenant uuid : String) (salt : ℕ) (now : ℤ)
  | enqueue (p : ℕ) (id : String) (now : ℕ) (raises : Bool)
  | commit (p : ℕ)
  | returns (p : ℕ)
  /-- an exception, wherever the writer stands -/
  | raises (p : ℕ) (reason : String)
  | ingest (p : ℕ) (records : List Dict) (tenant : String) (now : ℤ)
  | handle (p : ℕ) (uuid : String) (salt : ℕ)
  | finish (p : ℕ)
  | recover (p path : ℕ)
  | replay (p : ℕ) (tenant uuid : String) (salt : ℕ) (now : ℤ)
  | settle (p : ℕ)
  /-- what a live process does to its own log file -/
  | write (path : ℕ) (lines : Option (List Dict))
  | crash (p : ℕ)

section Steps
variable (py : PyText) (svc : Services) (pub : Publishing)

/-- `str(entry.get("id"))`, for an entry that has one. -/
def entryId (entry : Dict) : Option String :=
  match (entry.lookup "id").getD .null with
  | .null => none
  | v => if py.str v = "" then none else some (py.str v)

/-- `by_id[rid] = entry`. -/
def putEntry (rid : String) (entry : Dict) : List (String × Dict) → List (String × Dict)
  | [] => [(rid, entry)]
  | x :: xs => if x.1 = rid then (rid, entry) :: xs else x :: putEntry rid entry xs

def byId (entries : List Dict) : List (String × Dict) :=
  entries.foldl (fun m entry => (entryId py entry).elim m fun rid => putEntry rid entry m) []

/-- `DECISION_WAL_MAX_REPLAY_ATTEMPTS`, as set. -/
def maxReplayAttempts (setting : ℤ) : ℤ := max 1 setting

/-- The `except` branch for the record at hand; `none` where the count of its
    attempts is no number, which ends the recovery. -/
def Recovery.except (setting : ℤ) (reason : String) (r : Recovery) : Option Recovery :=
  match r.todo with
  | [] => some r
  | (_, entry) :: todo => do
    let before ← (pyIntOf py (Value.orElse (entry.lookup "replay_attempts") (.int 0))).toOption
    let entry := setKey entry "replay_attempts" (.int (before + 1))
    if before + 1 ≥ maxReplayAttempts setting then
      some { r with
        todo := todo
        deadLettered := r.deadLettered ++
          [setKey entry "dead_lettered_reason" (Value.str (reason.take 500).toString)] }
    else some { r with todo := todo, failed := r.failed ++ [entry] }

/-- `add_decision` has raised: its transaction is gone, and its caller goes on. -/
def State.raised (s : State) (p : ℕ) (setting : ℤ) (reason : String) : Option Recovery → State
  | none => s.go p .idle
  | some r =>
    match r.except py setting reason with
    | some r => s.go p (.recovering r)
    | none => (s.go p .idle).unlock p

/-- `add_decision` up to the flush. -/
def State.flush (s : State) (p : ℕ) (setting : ℤ) (caller : Option Recovery)
    (row : Option Decision) : State :=
  match row with
  | some row =>
    if svc.binds row ∧ Fits s.decisions row then s.go p (.flushed caller row)
    else s.raised py p setting "IntegrityError" caller
  | none => s.raised py p setting "ValueError" caller

/-- The next record of a batch: the insert is in a savepoint of its own, and what
    the table refuses is taken for a duplicate. -/
def State.ingestRow (s : State) (p : ℕ) (k : Call) (rows : List Decision) (d : Decision) : State :=
  if Fits (s.decisions ++ rows) d then
    s.go p (.ingesting { k with inserted := k.inserted + 1 } (rows ++ [d]))
  else s.go p (.ingesting k rows)

def step (setting : ℤ) (s : State) : Act → Option State
  | .add p payload tenant uuid salt now =>
    match s.process p with
    | .idle =>
      some (s.flush py svc p setting none (addDecisionRow py svc uuid salt tenant payload now))
    | _ => none
  | .enqueue p id now raises =>
    match s.process p with
    | .flushed caller row =>
      let event := if raises then none else some (Announce.enqueued pub id row.tenantId row now)
      some (s.go p (.enqueued caller row event))
    | _ => none
  | .commit p =>
    match s.process p with
    | .enqueued caller row event =>
      if Fits s.decisions row ∧ ∀ e ∈ event, e.id ∉ eventIds s.outbox then
        some ({ s with
          decisions := s.decisions ++ [row]
          outbox := s.outbox ++ event.toList }.go p (.committed caller))
      else some (s.raised py p setting "IntegrityError" caller)
    | _ => none
  | .returns p =>
    match s.process p with
    | .committed none => some (s.go p .idle)
    | .committed (some r) => some (s.go p (.recovering { r with todo := r.todo.tail }))
    | _ => none
  | .raises p reason =>
    match s.process p with
    | .flushed caller _ | .enqueued caller _ _ | .committed caller =>
      some (s.raised py p setting reason caller)
    | .ingesting _ _ => some (s.go p .idle)
    | .idle | .recovering _ => none
  | .ingest p records tenant now =>
    match s.process p with
    | .idle =>
      let clientIds := records.filterMap (clientIdOf py)
      let existing := s.decisions.filterMap fun d =>
        d.clientId.filter fun x => d.tenantId = tenant ∧ x ∈ clientIds
      some (s.go p (.ingesting ⟨p, tenant, existing, [], records, [], [], 0, now⟩ []))
    | _ => none
  | .handle p uuid salt =>
    match s.process p with
    | .ingesting k rows =>
      match k.todo with
      | [] => none
      | record :: rest =>
        if k.duplicate py record then some (s.go p (.ingesting (k.next py record rest) rows))
        else match decisionOf py svc uuid salt k.tenant record k.now with
          | .error _ => some (s.go p .idle)
          | .ok d =>
            if svc.binds d then some (s.ingestRow p (k.take py record rest) rows d)
            else some (s.go p .idle)
    | _ => none
  | .finish p =>
    match s.process p with
    | .ingesting k rows =>
      if k.todo = [] ∧ FitAll s.decisions rows then
        some ({ s with decisions := s.decisions ++ rows }.go p .idle)
      else none
    | _ => none
  | .recover p path =>
    match s.process p, s.file path with
    | .idle, some entries =>
      if s.lock path = none then
        let todo := (byId py entries).filter fun x => x.1 ∉ s.decisions.map Decision.id
        some { s.go p (.recovering ⟨path, todo, [], []⟩) with
          lock := Function.update s.lock path (some p) }
      else none
    | _, _ => none
  | .replay p tenant uuid salt now =>
    match s.process p with
    | .recovering r =>
      match r.todo with
      | [] => none
      | (_, entry) :: _ =>
        let row := match entry.lookup "record" with
          | some (.dict record) => addDecisionRow py svc uuid salt tenant record now
          | _ => none
        some (s.flush py svc p setting (some r) row)
    | _ => none
  | .settle p =>
    match s.process p with
    | .recovering ⟨path, [], failed, deadLettered⟩ =>
      some (({ s with
        deadLetter := s.deadLetter ++ deadLettered
        file := Function.update s.file path (if failed = [] then none else some failed) }.go p
          .idle).unlock p)
    | _ => none
  | .write path lines =>
    if s.lock path = none then some { s with file := Function.update s.file path lines } else none
  | .crash p => some ((s.go p .idle).unlock p)

end Steps

/-! ## What a step does to the tables -/

theorem fitAll_nodup {rows ds : List Decision} (hrows : (rows.map Decision.id).Nodup)
    (h : FitAll rows ds) : ((rows ++ ds).map Decision.id).Nodup := by
  induction ds generalizing rows with
  | nil =>
    rw [List.append_nil]
    exact hrows
  | cons d ds ih =>
    obtain ⟨hfits, hrest⟩ := h
    rw [List.append_cons]
    refine ih ?_ hrest
    rw [List.map_append, List.nodup_append]
    refine ⟨hrows, List.nodup_singleton _, ?_⟩
    rintro _ hid _ hd rfl
    obtain ⟨r, hr, hsame⟩ := List.mem_map.1 hid
    exact (hfits.2.2 r hr).1 (hsame.trans (List.mem_singleton.1 hd))

section Steps
variable {py : PyText} {svc : Services} {pub : Publishing} {setting : ℤ} {s s' : State} {a : Act}

@[simp] theorem go_decisions (p : ℕ) (process : Process) :
    (s.go p process).decisions = s.decisions := rfl

@[simp] theorem go_outbox (p : ℕ) (process : Process) : (s.go p process).outbox = s.outbox := rfl

@[simp] theorem unlock_decisions (p : ℕ) : (s.unlock p).decisions = s.decisions := rfl

@[simp] theorem unlock_outbox (p : ℕ) : (s.unlock p).outbox = s.outbox := rfl

@[simp] theorem unlock_process (p : ℕ) : (s.unlock p).process = s.process := rfl

def Same (s s' : State) : Prop := s'.decisions = s.decisions ∧ s'.outbox = s.outbox

/-- No process but `p` moves, and `p` is not left with an event at hand. -/
def Lost (s s' : State) (p : ℕ) : Prop :=
  ∃ process, s'.process = Function.update s.process p process ∧
    ∀ caller row event, process ≠ .enqueued caller row event

theorem lost_go {p : ℕ} {process : Process}
    (h : ∀ caller row event, process ≠ .enqueued caller row event) : Lost s (s.go p process) p :=
  ⟨process, rfl, h⟩

theorem raised_tables (p : ℕ) (reason : String) (caller : Option Recovery) :
    Same s (s.raised py p setting reason caller) ∧
      Lost s (s.raised py p setting reason caller) p := by
  cases caller with
  | none => exact ⟨⟨rfl, rfl⟩, lost_go (by rintro _ _ _ ⟨⟩)⟩
  | some r =>
    simp only [State.raised]
    split
    · exact ⟨⟨rfl, rfl⟩, lost_go (by rintro _ _ _ ⟨⟩)⟩
    · exact ⟨⟨rfl, rfl⟩, .idle, rfl, by rintro _ _ _ ⟨⟩⟩

theorem flush_tables (p : ℕ) (caller : Option Recovery) (row : Option Decision) :
    Same s (s.flush py svc p setting caller row) ∧
      Lost s (s.flush py svc p setting caller row) p := by
  cases row with
  | none => exact raised_tables p _ caller
  | some row =>
    simp only [State.flush]
    split
    · exact ⟨⟨rfl, rfl⟩, lost_go (by rintro _ _ _ ⟨⟩)⟩
    · exact raised_tables p _ caller

/-- What a step does: it leaves both tables as they are, and a process with an
    event at hand only where `enqueue` has built one; or it commits the row of
    `add_decision` with its event; or it commits the rows of a batch. -/
inductive Effect (pub : Publishing) (s s' : State) : Act → Prop where
  | quiet {a : Act} (p : ℕ) (same : Same s s') (lost : Lost s s' p) : Effect pub s s' a
  | still {a : Act} (same : Same s s') (process : s'.process = s.process) : Effect pub s s' a
  | enqueue (p : ℕ) (id : String) (now : ℕ) (raises : Bool) (caller : Option Recovery)
      (row : Decision) (same : Same s s')
      (process : s'.process = Function.update s.process p (.enqueued caller row
        (if raises then none else some (enqueued pub id row.tenantId row now)))) :
      Effect pub s s' (.enqueue p id now raises)
  | commit (p : ℕ) (caller : Option Recovery) (row : Decision) (event : Option Event)
      (before : s.process p = .enqueued caller row event) (fits : Fits s.decisions row)
      (decisions : s'.decisions = s.decisions ++ [row])
      (outbox : s'.outbox = s.outbox ++ event.toList) (lost : Lost s s' p) :
      Effect pub s s' (.commit p)
  | finish (p : ℕ) (k : Call) (rows : List Decision) (before : s.process p = .ingesting k rows)
      (fits : FitAll s.decisions rows) (decisions : s'.decisions = s.decisions ++ rows)
      (outbox : s'.outbox = s.outbox) (lost : Lost s s' p) : Effect pub s s' (.finish p)

theorem step_effect (h : step py svc pub setting s a = some s') : Effect pub s s' a := by
  cases a with
  | add p payload tenant uuid salt now =>
    simp only [step] at h
    split at h
    · cases h
      exact .quiet p (flush_tables p none _).1 (flush_tables p none _).2
    · cases h
  | enqueue p id now raises =>
    simp only [step] at h
    split at h
    · next caller row hat =>
      cases h
      exact .enqueue p id now raises caller row ⟨rfl, rfl⟩ rfl
    · cases h
  | commit p =>
    simp only [step] at h
    split at h
    · next caller row event hat =>
      split at h
      · next hfits =>
        cases h
        exact .commit p caller row event hat hfits.1 rfl rfl ⟨_, rfl, by rintro _ _ _ ⟨⟩⟩
      · cases h
        exact .quiet p (raised_tables p _ caller).1 (raised_tables p _ caller).2
    · cases h
  | returns p =>
    simp only [step] at h
    split at h
    · cases h
      exact .quiet p ⟨rfl, rfl⟩ (lost_go (by rintro _ _ _ ⟨⟩))
    · cases h
      exact .quiet p ⟨rfl, rfl⟩ (lost_go (by rintro _ _ _ ⟨⟩))
    · cases h
  | raises p reason =>
    simp only [step] at h
    split at h
    any_goals cases h
    any_goals exact .quiet p (raised_tables p reason _).1 (raised_tables p reason _).2
    exact .quiet p ⟨rfl, rfl⟩ (lost_go (by rintro _ _ _ ⟨⟩))
  | ingest p records tenant now =>
    simp only [step] at h
    split at h
    · cases h
      exact .quiet p ⟨rfl, rfl⟩ (lost_go (by rintro _ _ _ ⟨⟩))
    · cases h
  | handle p uuid salt =>
    simp only [step] at h
    split at h
    · split at h
      · cases h
      · split at h
        · cases h
          exact .quiet p ⟨rfl, rfl⟩ (lost_go (by rintro _ _ _ ⟨⟩))
        · split at h
          · cases h
            exact .quiet p ⟨rfl, rfl⟩ (lost_go (by rintro _ _ _ ⟨⟩))
          · split at h
            · cases h
              rw [State.ingestRow]
              split <;> exact .quiet p ⟨rfl, rfl⟩ (lost_go (by rintro _ _ _ ⟨⟩))
            · cases h
              exact .quiet p ⟨rfl, rfl⟩ (lost_go (by rintro _ _ _ ⟨⟩))
    · cases h
  | finish p =>
    simp only [step] at h
    split at h
    · next k rows hat =>
      split at h
      · next hfits =>
        cases h
        exact .finish p k rows hat hfits.2 rfl rfl ⟨_, rfl, by rintro _ _ _ ⟨⟩⟩
      · cases h
    · cases h
  | recover p path =>
    simp only [step] at h
    split at h
    · split at h
      · cases h
        exact .quiet p ⟨rfl, rfl⟩ ⟨_, rfl, by rintro _ _ _ ⟨⟩⟩
      · cases h
    · cases h
  | replay p tenant uuid salt now =>
    simp only [step] at h
    split at h
    · split at h
      · cases h
      · cases h
        exact .quiet p (flush_tables p _ _).1 (flush_tables p _ _).2
    · cases h
  | settle p =>
    simp only [step] at h
    split at h
    · cases h
      exact .quiet p ⟨rfl, rfl⟩ ⟨_, rfl, by rintro _ _ _ ⟨⟩⟩
    · cases h
  | write path lines =>
    simp only [step] at h
    split at h
    · cases h
      exact .still ⟨rfl, rfl⟩ rfl
    · cases h
  | crash p =>
    cases h
    exact .quiet p ⟨rfl, rfl⟩ ⟨.idle, rfl, by rintro _ _ _ ⟨⟩⟩

end Steps

/-! ## Events of rows -/

def State.ids (s : State) : List String := s.decisions.map Decision.id

/-- The ids the outbox announces, once for each event. -/
def State.announcedIds (s : State) : List String := s.outbox.map Event.decisionId

/-- One event for each row, and none for any other id. -/
def State.Announced (s : State) : Prop := ∀ i, s.announcedIds.count i = if i ∈ s.ids then 1 else 0

structure Inv (pub : Publishing) (s : State) : Prop where
  ids : s.ids.Nodup
  once : s.announcedIds.Nodup
  stored : ∀ event ∈ s.outbox, ∃ row ∈ s.decisions, Announces pub event row
  atHand : ∀ p caller row event, s.process p = .enqueued caller row (some event) →
    Announces pub event row

/-- The commit of a step announces what it stores: it is not that of a row whose
    event `enqueue` failed to build, nor that of the rows of a batch. -/
def Announcing (s : State) : Act → Prop
  | .commit p => ∀ caller row, s.process p = .enqueued caller row none → ¬ Fits s.decisions row
  | .finish p => ∀ k rows, s.process p = .ingesting k rows → rows = []
  | _ => True

section Runs
variable {py : PyText} {svc : Services} {pub : Publishing} {setting : ℤ} {s s' : State} {a : Act}

theorem enqueued_announces (id : String) (row : Decision) (now : ℕ) :
    Announces pub (enqueued pub id row.tenantId row now) row := ⟨rfl, rfl, rfl⟩

theorem Fits.notMem {rows : List Decision} {d : Decision} (h : Fits rows d) :
    d.id ∉ rows.map Decision.id := by
  intro hid
  obtain ⟨r, hr, hsame⟩ := List.mem_map.1 hid
  exact (h.2.2 r hr).1 hsame

theorem Inv.announced_stored (h : Inv pub s) {i : String} (hi : i ∈ s.announcedIds) :
    i ∈ s.ids := by
  obtain ⟨event, hevent, rfl⟩ := List.mem_map.1 hi
  obtain ⟨row, hrow, hid, -⟩ := h.stored event hevent
  rw [hid]
  exact List.mem_map_of_mem hrow

theorem Inv.lost (h : Inv pub s) {p : ℕ} (hlost : Lost s s' p) :
    ∀ q caller row event, s'.process q = .enqueued caller row (some event) →
      Announces pub event row := by
  obtain ⟨process, hprocess, hnone⟩ := hlost
  intro q caller row event hat
  rw [hprocess, Function.update_apply] at hat
  split at hat
  · exact absurd hat (hnone caller row _)
  · exact h.atHand q caller row event hat

theorem Inv.same (h : Inv pub s) (hsame : Same s s')
    (hat : ∀ q caller row event, s'.process q = .enqueued caller row (some event) →
      Announces pub event row) : Inv pub s' := by
  obtain ⟨hdecisions, houtbox⟩ := hsame
  refine ⟨?_, ?_, ?_, hat⟩
  · rw [State.ids, hdecisions]
    exact h.ids
  · rw [State.announcedIds, houtbox]
    exact h.once
  · rw [hdecisions, houtbox]
    exact h.stored

/-- **One step**: an event is that of one stored row, and no row gets two. -/
theorem Inv.step (h : Inv pub s) (hs : step py svc pub setting s a = some s') : Inv pub s' := by
  cases step_effect hs with
  | quiet p same lost => exact h.same same (h.lost lost)
  | still same process =>
    refine h.same same fun q caller row event hat => ?_
    rw [process] at hat
    exact h.atHand q caller row event hat
  | enqueue p id now raises caller row same process =>
    refine h.same same fun q caller' row' event hat => ?_
    rw [process, Function.update_apply] at hat
    split at hat
    · grind [enqueued_announces]
    · exact h.atHand q caller' row' event hat
  | commit p caller row event before fits decisions outbox lost =>
    have hstored : ∀ e ∈ event.toList, Announces pub e row := by
      intro e he
      rw [Option.mem_toList] at he
      cases he
      exact h.atHand p caller row e before
    refine ⟨?_, ?_, ?_, h.lost lost⟩
    · rw [State.ids, decisions]
      have hfits : FitAll s.decisions [row] := ⟨fits, trivial⟩
      exact fitAll_nodup h.ids hfits
    · rw [State.announcedIds, outbox, List.map_append, List.nodup_append]
      refine ⟨h.once, ?_, ?_⟩
      · grind
      · rintro i hi _ hj rfl
        obtain ⟨e, he, hid⟩ := List.mem_map.1 hj
        refine fits.notMem ?_
        rw [← (hstored e he).1, hid]
        exact h.announced_stored hi
    · rw [outbox, decisions]
      intro e he
      obtain he | he := List.mem_append.1 he
      · obtain ⟨r, hr, hannounces⟩ := h.stored e he
        exact ⟨r, List.mem_append_left _ hr, hannounces⟩
      simp_all
  | finish p k rows before fits decisions outbox lost =>
    refine ⟨?_, ?_, ?_, h.lost lost⟩
    · rw [State.ids, decisions]
      exact fitAll_nodup h.ids fits
    · rw [State.announcedIds, outbox]
      exact h.once
    · rw [outbox, decisions]
      intro e he
      obtain ⟨r, hr, hannounces⟩ := h.stored e he
      exact ⟨r, List.mem_append_left _ hr, hannounces⟩

theorem inv_init (file : ℕ → Option (List Dict)) : Inv pub (State.init file) := by
  refine ⟨List.nodup_nil, List.nodup_nil, ?_, ?_⟩
  · intro event hevent
    cases hevent
  · rintro p caller row event ⟨⟩

theorem inv_reachable {file : ℕ → Option (List Dict)}
    (h : Reachable (step py svc pub setting) (State.init file) s) : Inv pub s :=
  h.invariant (inv_init file) fun _ _ _ hinv _ hs => hinv.step hs

/-! ### What is stored is announced -/

def Covered (s : State) : Prop := ∀ i ∈ s.ids, i ∈ s.announcedIds

theorem Covered.step (hinv : Inv pub s) (h : Covered s) (hok : Announcing s a)
    (hs : Announce.step py svc pub setting s a = some s') : Covered s' := by
  have hsame : Same s s' → Covered s' := by
    rintro ⟨hdecisions, houtbox⟩
    rw [Covered, State.ids, State.announcedIds, hdecisions, houtbox]
    exact h
  cases step_effect hs with
  | quiet p same lost => exact hsame same
  | still same process => exact hsame same
  | enqueue p id now raises caller row same process => exact hsame same
  | commit p caller row event before fits decisions outbox lost =>
    cases event with
    | none => exact absurd fits (hok caller row before)
    | some event =>
      have hid := (hinv.atHand p caller row event before).1
      intro i hi
      rw [State.ids, decisions, List.map_append, List.mem_append] at hi
      rw [State.announcedIds, outbox, List.map_append, List.mem_append]
      obtain hi | hi := hi
      · exact .inl (h i hi)
      simp_all
  | finish p k rows before fits decisions outbox lost =>
    cases hok k rows before
    rw [List.append_nil] at decisions
    exact hsame ⟨decisions, outbox⟩

theorem Inv.announced_iff (hinv : Inv pub s) : s.Announced ↔ Covered s := by
  constructor
  · intro h i hi
    have hcount := h i
    grind
  · intro h i
    rw [hinv.once.count]
    by_cases hi : i ∈ s.ids
    · rw [if_pos hi, if_pos (h i hi)]
    · rw [if_neg hi, if_neg fun hannounced => hi (hinv.announced_stored hannounced)]

theorem never_announced {i : String} (hinv : Inv pub s) (hi : i ∈ s.ids)
    (hnone : i ∉ s.announcedIds) (hs : Reachable (step py svc pub setting) s s') :
    i ∈ s'.ids ∧ i ∉ s'.announcedIds := by
  have hall : Inv pub s' ∧ i ∈ s'.ids ∧ i ∉ s'.announcedIds := by
    refine hs.invariant (I := fun t => Inv pub t ∧ i ∈ t.ids ∧ i ∉ t.announcedIds)
      ⟨hinv, hi, hnone⟩ ?_
    rintro t a t' ⟨hinv, hi, hnone⟩ - hstep
    refine ⟨hinv.step hstep, ?_⟩
    have hsame : Same t t' → i ∈ t'.ids ∧ i ∉ t'.announcedIds := by
      rintro ⟨hdecisions, houtbox⟩
      rw [State.ids, State.announcedIds, hdecisions, houtbox]
      exact ⟨hi, hnone⟩
    cases step_effect hstep with
    | quiet p same lost => exact hsame same
    | still same process => exact hsame same
    | enqueue p id now raises caller row same process => exact hsame same
    | commit p caller row event before fits decisions outbox lost =>
      rw [State.ids, decisions, State.announcedIds, outbox, List.map_append, List.map_append,
        List.mem_append, List.mem_append]
      refine ⟨.inl hi, ?_⟩
      rintro (hmem | hmem)
      · exact hnone hmem
      · obtain ⟨e, he, rfl⟩ := List.mem_map.1 hmem
        rw [Option.mem_toList] at he
        cases he
        rw [(hinv.atHand p caller row e before).1] at hi
        exact fits.notMem hi
    | finish p k rows before fits decisions outbox lost =>
      rw [State.ids, decisions, State.announcedIds, outbox, List.map_append, List.mem_append]
      exact ⟨.inl hi, hnone⟩
  exact hall.2

theorem unannounced_commit (hinv : Inv pub s) (hnot : ¬ Announcing s a)
    (hs : step py svc pub setting s a = some s') : ∃ i ∈ s'.ids, i ∉ s'.announcedIds := by
  cases a with
  | commit p =>
    obtain ⟨caller, row, hat, hfits⟩ : ∃ caller row,
        s.process p = .enqueued caller row none ∧ Fits s.decisions row := by
      simpa only [Announcing, not_forall, not_not, exists_prop] using hnot
    simp only [step, hat] at hs
    split at hs
    · cases hs
      refine ⟨row.id, ?_, ?_⟩
      · simp [State.ids, go_decisions, List.map_append]
      · rw [State.announcedIds, go_outbox, Option.toList_none, List.append_nil]
        exact fun hmem => hfits.notMem (hinv.announced_stored hmem)
    simp_all
  | finish p =>
    obtain ⟨k, rows, hat, hrows⟩ : ∃ k rows, s.process p = .ingesting k rows ∧ rows ≠ [] := by
      simpa only [Announcing, not_forall, exists_prop] using hnot
    obtain ⟨d, ds, rfl⟩ := List.exists_cons_of_ne_nil hrows
    simp only [step, hat] at hs
    split at hs
    · next hfits =>
      cases hs
      refine ⟨d.id, ?_, ?_⟩
      · simp [State.ids, go_decisions, List.map_append]
      · exact fun hmem => hfits.2.1.notMem (hinv.announced_stored hmem)
    · cases hs
  | _ => exact absurd trivial hnot

variable (py svc pub setting) in
/-- **What is announced.**  In every run, whoever fails or dies and wherever, an
    event is that of one stored row and no row has two.  As long as every commit
    announces what it stores, each row has exactly one; and once a commit has
    not, some row has none for ever. -/
theorem rows_announced (file : ℕ → Option (List Dict)) :
    (∀ s, Reachable (step py svc pub setting) (State.init file) s → s.announcedIds.Nodup ∧
      ∀ event ∈ s.outbox, ∃ row ∈ s.decisions, Announces pub event row) ∧
    (∀ s, Reach (step py svc pub setting) Announcing (State.init file) s → s.Announced) ∧
    ∀ s a s' t, Reachable (step py svc pub setting) (State.init file) s → ¬ Announcing s a →
      step py svc pub setting s a = some s' → Reachable (step py svc pub setting) s' t →
        ¬ t.Announced := by
  refine ⟨fun s hs => ⟨(inv_reachable hs).once, (inv_reachable hs).stored⟩, fun s hs => ?_, ?_⟩
  · have hboth : Inv pub s ∧ Covered s := by
      refine hs.invariant (I := fun t => Inv pub t ∧ Covered t) ⟨inv_init file, ?_⟩ ?_
      · rintro i ⟨⟩
      · rintro t a t' ⟨hinv, hcovered⟩ hok hstep
        exact ⟨hinv.step hstep, hcovered.step hinv hok hstep⟩
    exact hboth.1.announced_iff.2 hboth.2
  · intro s a s' t hs hnot hstep ht hannounced
    have hinv := inv_reachable hs
    obtain ⟨i, hi, hnone⟩ := unannounced_commit hinv hnot hstep
    have hlater := never_announced (hinv.step hstep) hi hnone ht
    have hinv' : Inv pub t := ht.invariant (hinv.step hstep) fun _ _ _ hinv _ hs => hinv.step hs
    exact hlater.2 (hinv'.announced_iff.1 hannounced i hlater.1)

end Runs

/-! ### Runs -/

def quietPublishing : Publishing := ⟨⟨false, "rulemind.decisions"⟩, fun _ => "", fun _ => ""⟩

/-- One decision of the API, written with its event. -/
def addRun : List Act :=
  [.add 0 approved "acme" "7c9e6679" 0 0, .enqueue 0 "0f8fad5b" 0 false, .commit 0, .returns 0]

def deviceRun : List Act := [.ingest 0 [approved] "acme" 0, .handle 0 "7c9e6679" 0]

/-- **The batch ingest announces nothing.** -/
theorem batch_unannounced : ∃ s,
    Reachable (step asciiText plainServices quietPublishing 5) (State.init fun _ => none) s ∧
      ¬ s.Announced := by
  have hrun : (exec (step asciiText plainServices quietPublishing 5) (State.init fun _ => none)
      (deviceRun ++ [Act.finish 0])).map (fun s => (s.ids, s.outbox)) = some (["7c9e6679"], []) := by
    rfl
  obtain ⟨s, hs, hseen⟩ := Option.map_eq_some_iff.1 hrun
  obtain ⟨hids, houtbox⟩ := Prod.mk.inj hseen
  refine ⟨s, reachable_exec hs, fun hannounced => ?_⟩
  have hcount := hannounced "7c9e6679"
  simp_all [State.announcedIds]

theorem rows_announced_once :
    (∃ s, exec (step asciiText plainServices quietPublishing 5) (State.init fun _ => none) addRun =
      some s ∧ s.announcedIds.Nodup ∧ s.Announced) ∧
    ∃ s s', exec (step asciiText plainServices quietPublishing 5) (State.init fun _ => none)
        deviceRun = some s ∧
      step asciiText plainServices quietPublishing 5 s (.finish 0) = some s' ∧
      ∀ t, Reachable (step asciiText plainServices quietPublishing 5) s' t → ¬ t.Announced := by
  have hall := rows_announced asciiText plainServices quietPublishing 5 fun _ => none
  constructor
  · have hexec : exec (step asciiText plainServices quietPublishing 5)
        (State.init fun _ => none) addRun = some _ := rfl
    refine ⟨_, hexec, (hall.1 _ (reachable_exec hexec)).1, hall.2.1 _ (reach_exec hexec ?_)⟩
    refine .cons trivial rfl (.cons trivial rfl (.cons ?_ rfl (.cons trivial rfl trivial)))
    rintro _ _ ⟨⟩
  · have hexec : exec (step asciiText plainServices quietPublishing 5)
        (State.init fun _ => none) deviceRun = some _ := rfl
    refine ⟨_, _, hexec, rfl, fun t ht => ?_⟩
    refine hall.2.2 _ (.finish 0) _ t (reachable_exec hexec) ?_ rfl ht
    intro hok
    exact absurd (hok _ _ rfl) (List.cons_ne_nil _ _)

end RuleMind.Announce
