/-
  The decisions of a device on their way to the backend: the calls `evaluate`,
  `resumeExecution` and `flushPendingOperations` of `rulemind.dart`, the
  in-memory outbox and the passes of `DecisionSyncer.sync`.

  A call shows what it has written at each `await`, and another call may go on
  there.  What the engine makes of a bundle, what an operation and an upload come
  to and when a call fails are chosen by the run.
-/
import RuleMind.Lib.Run
import Mathlib.Data.List.Sort

namespace RuleMind.Device

open Lib

/-! ## Decisions and the outbox -/

inductive Status where
  | completed
  | paused
  | pendingSync
  | other
  deriving DecidableEq

structure Operation where
  id : String
  blocking : Bool
  delivered : Bool
  deriving DecidableEq

/-- A decision made from a bundle.  `content` is what the uploaded record says
    beside its ids and its outcome: payload, variables, rule and scorecard
    results, latency, experiment variant. -/
structure Decision where
  executionId : String
  policyId : String
  status : Status
  outcome : String
  content : String
  pendingOperations : List Operation
  deriving DecidableEq

structure Record where
  id : String
  policyId : String
  outcome : String
  content : String
  createdAt : String
  deriving DecidableEq

structure PendingDecision where
  id : String
  policyId : String
  outcome : String
  payload : Record
  createdAt : String
  attempts : ℕ
  nextAttemptAtMs : ℤ
  deriving DecidableEq

def recordOf (d : Decision) (now : String) : Record :=
  ⟨d.executionId, d.policyId, d.outcome, d.content, now⟩

def toPending (d : Decision) (now : String) : PendingDecision :=
  { id := d.executionId
    policyId := d.policyId
    outcome := d.outcome
    payload := recordOf d now
    createdAt := now
    attempts := 0
    nextAttemptAtMs := 0 }

/-- `InMemoryDecisionOutbox`: the values of `_rows` in the order of insertion,
    `_order` and `_seq`. -/
structure DecisionOutbox where
  rows : List PendingDecision
  order : List (String × ℕ)
  seq : ℕ
  deriving DecidableEq

namespace DecisionOutbox
variable (o : DecisionOutbox)

def ids : List String := o.rows.map PendingDecision.id

def sorted (rows : List PendingDecision) : List PendingDecision :=
  rows.insertionSort fun a b => (o.order.lookup a.id).getD 0 ≤ (o.order.lookup b.id).getD 0

def enqueue (decision : PendingDecision) : DecisionOutbox :=
  if decision.id ∈ o.ids then o
  else ⟨o.rows ++ [decision], (decision.id, o.seq) :: o.order, o.seq + 1⟩

def pending (limit : ℕ) (nowMs : ℤ) : List PendingDecision :=
  (o.sorted (o.rows.filter fun d => d.nextAttemptAtMs ≤ nowMs)).take limit

def remove (ids : List String) : DecisionOutbox :=
  { o with
    rows := o.rows.filter fun d => d.id ∉ ids
    order := o.order.filter fun x => x.1 ∉ ids }

def markSynced (ids : List String) : DecisionOutbox := o.remove ids

/-- `row.copyWith`, for one id. -/
def bump (nextAttemptAtMs : ℤ) (rows : List PendingDecision) (id : String) : List PendingDecision :=
  rows.map fun row =>
    if row.id = id then
      { row with attempts := row.attempts + 1, nextAttemptAtMs := nextAttemptAtMs }
    else row

def recordFailure (ids : List String) (nextAttemptAtMs : ℤ) : DecisionOutbox :=
  { o with rows := ids.foldl (bump nextAttemptAtMs) o.rows }

/-- The rows beyond `maxRows`, oldest first. -/
def overflowing (maxRows : ℤ) : List PendingDecision :=
  (o.sorted o.rows).take (o.rows.length - maxRows).toNat

/-- `trimToCapacity`, with the count that it returns. -/
def trimToCapacity (maxRows : ℤ) : DecisionOutbox × ℤ :=
  let overflow := o.rows.length - maxRows
  if overflow ≤ 0 then (o, 0)
  else (o.remove ((o.overflowing maxRows).map PendingDecision.id), overflow)

end DecisionOutbox

/-- What comes of the POST: no answer, or a status with a body, which may be no
    JSON object with a list (`none`), or one without `acked`. -/
inductive Response where
  | lost
  | answered (statusCode : ℕ) (body : Option (Option (List String)))
  deriving DecidableEq

structure UploadResult where
  ok : Bool
  ackedIds : List String
  deriving DecidableEq

def UploadResult.failure : UploadResult := ⟨false, []⟩

def uploadDecisions : Response → UploadResult
  | .lost => .failure
  | .answered statusCode body =>
    if statusCode < 200 ∨ statusCode ≥ 300 then .failure
    else match body with
      | none => .failure
      | some acked => ⟨true, acked.getD []⟩

/-- `DecisionSyncConfig`, without the numbers of the backoff. -/
structure DecisionSyncConfig where
  batchSize : ℕ
  capacity : ℤ
  maxRunsPerSync : ℕ

structure SyncStats where
  uploaded : ℕ
  failed : ℕ
  dropped : ℤ
  deriving DecidableEq

/-! ## Calls -/

/-- What the execution store has, with the fact, not in the code, that it was
    made from a bundle on the device. -/
structure Execution where
  decision : Decision
  ofBundle : Bool
  deriving DecidableEq

/-- `_isResumable`. -/
def resumable (d : Decision) : Bool :=
  d.status ≠ .completed ∨ d.pendingOperations.any fun op => !op.delivered

def persist (store : List Execution) (e : Execution) : List Execution :=
  if e.decision.executionId = "" then store
  else
    let others := store.filter fun x => x.decision.executionId ≠ e.decision.executionId
    if resumable e.decision then others ++ [e] else others

/-- Where a call stands; each constructor is an `await` of the source. -/
inductive Process where
  | idle
  /-- `evaluate`: the decision is made, `persist` to come -/
  | made (key : String) (d : Decision)
  /-- `evaluate`: persisted, `put` to come or what follows it -/
  | persisted (key : String) (d : Decision)
  /-- `evaluate`: in the cache, `enqueue` to come -/
  | cached (d : Decision)
  /-- `resumeExecution`: the decision is made, `persist` to come -/
  | resumed (d : Decision)
  /-- `resumeExecution`: `_syncDecision` to come -/
  | sending (d : Decision)
  | flushing (todo updated : List Execution)
  /-- `sync`: at the top of its loop, in run `runs` -/
  | syncing (stats : SyncStats) (runs : ℕ)
  | uploading (stats : SyncStats) (runs : ℕ) (batch : List PendingDecision)

/-- The stores of the device and the calls in progress; `passes` is what the
    passes have returned.  Not in the code: `queued` has what was put in the
    outbox, `returned` the completed decisions of bundles that calls have
    returned, `acked` the ids the server has listed, `dropped` those a trim has
    dropped and `counted` the sum of its counts. -/
structure State where
  outbox : DecisionOutbox
  cache : List (String × Decision)
  store : List Execution
  process : ℕ → Process
  passes : List SyncStats
  queued : List Decision
  returned : List Decision
  acked : List String
  dropped : List String
  counted : ℤ

def State.init : State := ⟨⟨[], [], 0⟩, [], [], fun _ => .idle, [], [], [], [], [], 0⟩

def State.go (s : State) (p : ℕ) (process : Process) : State :=
  { s with process := Function.update s.process p process }

/-- A pass of `sync` returns. -/
def State.passed (s : State) (p : ℕ) (stats : SyncStats) : State :=
  { s with passes := s.passes ++ [stats] }.go p .idle

def State.give (s : State) (e : Execution) : State :=
  if e.ofBundle ∧ e.decision.status = .completed then
    { s with returned := s.returned ++ [e.decision] }
  else s

inductive Act where
  /-- `evaluate` looks in the cache; `d` is what the engine makes of the bundle -/
  | evaluate (p : ℕ) (key : String) (d : Decision)
  | persist (p : ℕ)
  | put (p : ℕ)
  | enqueue (p : ℕ) (now : String)
  /-- `_syncDecision`, and the return -/
  | syncDecision (p : ℕ)
  /-- `resumeExecution` of an execution that is on the device -/
  | resume (p : ℕ) (executionId : String) (d : Decision)
  /-- a decision that the server made, kept on the device -/
  | server (d : Decision)
  | flush (p : ℕ)
  | flushOne (p : ℕ) (bundle : Bool) (results : String → Bool) (d : Decision)
  | flushed (p : ℕ)
  | fails (p : ℕ)
  /-- an entry of the cache expires or is evicted or cleared -/
  | forget (key : String)
  | sync (p : ℕ)
  | pending (p : ℕ) (nowMs : ℤ)
  | answer (p : ℕ) (response : Response) (nextAttemptAtMs : ℤ)

/-- The operations after `_dispatchPendingOperation`. -/
def dispatch (results : String → Bool) (ops : List Operation) : List Operation :=
  ops.map fun op => if op.delivered then op else { op with delivered := results op.id }

/-- The engine is run on an execution whose operations are through. -/
def resumes (bundle : Bool) (next : Decision) : Bool :=
  next.status = .pendingSync ∧
    ¬ next.pendingOperations.any (fun op => op.blocking ∧ ¬ op.delivered) ∧ bundle

/-- One execution of `flushPendingOperations`; `d` is what the engine makes of
    the bundle. -/
def flushExecution (bundle : Bool) (results : String → Bool) (d : Decision) (e : Execution) :
    Execution :=
  let next := { e.decision with pendingOperations := dispatch results e.decision.pendingOperations }
  if resumes bundle next then
    ⟨{ d with executionId := next.executionId, policyId := next.policyId }, true⟩
  else ⟨next, e.ofBundle⟩

/-- The outbox after an answer to `batch`, and what the pass goes on with: the
    ids it takes for acknowledged, `none` after a failure. -/
def settle (o : DecisionOutbox) (batch : List PendingDecision) (response : Response)
    (nextAttemptAtMs : ℤ) : DecisionOutbox × Option (List String) :=
  let result := uploadDecisions response
  if result.ok then
    let acked := if result.ackedIds = [] then batch.map PendingDecision.id else result.ackedIds
    (o.markSynced acked, some acked)
  else (o.recordFailure (batch.map PendingDecision.id) nextAttemptAtMs, none)

def step (cfg : DecisionSyncConfig) (s : State) : Act → Option State
  | .evaluate p key d =>
    match s.process p, s.cache.lookup key with
    | .idle, some cached =>
      if cached.status = .completed ∧ cached.pendingOperations = [] then
        some (s.give ⟨cached, true⟩)
      else some (s.go p (.made key d))
    | .idle, none => some (s.go p (.made key d))
    | _, _ => none
  | .persist p =>
    match s.process p with
    | .made key d =>
      some ({ s with store := Device.persist s.store ⟨d, true⟩ }.go p (.persisted key d))
    | .resumed d => some ({ s with store := Device.persist s.store ⟨d, true⟩ }.go p (.sending d))
    | _ => none
  | .put p =>
    match s.process p with
    | .persisted key d =>
      if d.status = .completed ∧ d.pendingOperations = [] then
        let others := s.cache.filter fun x => x.1 ≠ key
        some ({ s with cache := others ++ [(key, d)] }.go p (.cached d))
      else none
    | _ => none
  | .enqueue p now =>
    match s.process p with
    | .persisted _ d =>
      if d.status = .completed ∧ d.pendingOperations ≠ [] then
        some ((({ s with
          outbox := s.outbox.enqueue (toPending d now)
          queued := s.queued ++ [d] }).give ⟨d, true⟩).go p .idle)
      else none
    | .cached d =>
      some ((({ s with
        outbox := s.outbox.enqueue (toPending d now)
        queued := s.queued ++ [d] }).give ⟨d, true⟩).go p .idle)
    | _ => none
  | .syncDecision p =>
    match s.process p with
    | .persisted _ d => if d.status = .completed then none else some ((s.give ⟨d, true⟩).go p .idle)
    | .sending d => some ((s.give ⟨d, true⟩).go p .idle)
    | _ => none
  | .resume p executionId d =>
    match s.process p, s.store.find? fun e => e.decision.executionId = executionId with
    | .idle, some e =>
      if e.decision.status = .paused then
        some (s.go p (.resumed
          { d with executionId := e.decision.executionId, policyId := e.decision.policyId }))
      else none
    | _, _ => none
  | .server d => some { s with store := Device.persist s.store ⟨d, false⟩ }
  | .flush p =>
    match s.process p with
    | .idle =>
      let todo := s.store.filter fun e => e.decision.pendingOperations.any fun op => !op.delivered
      some (s.go p (.flushing todo []))
    | _ => none
  | .flushOne p bundle results d =>
    match s.process p with
    | .flushing (e :: todo) updated =>
      let next := flushExecution bundle results d e
      let store := Device.persist s.store next
      some ({ s with store := store }.go p (.flushing todo (updated ++ [next])))
    | _ => none
  | .flushed p =>
    match s.process p with
    | .flushing [] updated => some ((updated.foldl State.give s).go p .idle)
    | _ => none
  | .fails p =>
    match s.process p with
    | .syncing _ _ | .uploading _ _ _ => none
    | _ => some (s.go p .idle)
  | .forget key => some { s with cache := s.cache.filter fun x => x.1 ≠ key }
  | .sync p =>
    match s.process p with
    | .idle =>
      let (outbox, dropped) := s.outbox.trimToCapacity cfg.capacity
      some ({ s with
        outbox := outbox
        dropped := s.dropped ++ (s.outbox.overflowing cfg.capacity).map PendingDecision.id
        counted := s.counted + dropped }.go p (.syncing ⟨0, 0, dropped⟩ 0))
    | _ => none
  | .pending p nowMs =>
    match s.process p with
    | .syncing stats runs =>
      if runs < cfg.maxRunsPerSync then
        match s.outbox.pending cfg.batchSize nowMs with
        | [] => some (s.passed p stats)
        | batch => some (s.go p (.uploading stats (runs + 1) batch))
      else some (s.passed p stats)
    | _ => none
  | .answer p response nextAttemptAtMs =>
    match s.process p with
    | .uploading stats runs batch =>
      let (outbox, acked) := settle s.outbox batch response nextAttemptAtMs
      let s' := { s with
        outbox := outbox
        acked := s.acked ++ (uploadDecisions response).ackedIds }
      match acked with
      | some acked =>
        let uploaded := stats.uploaded + acked.length
        some (s'.go p (.syncing { stats with uploaded := uploaded } runs))
      | none => some (s'.passed p { stats with failed := stats.failed + batch.length })
    | _ => none

/-! ## Accounting -/

def PendingDecision.Carries (row : PendingDecision) (d : Decision) : Prop :=
  row.id = d.executionId ∧ ∃ now, row.payload = recordOf d now

def SameRecord (d e : Decision) : Prop := ∀ now, recordOf d now = recordOf e now

def State.Queued (s : State) (d : Decision) : Prop := ∃ e ∈ s.queued, SameRecord e d

/-- The decision is in the outbox, or the server has listed its id, or a trim has
    dropped it. -/
def State.Accounted (s : State) (d : Decision) : Prop :=
  (∃ row ∈ s.outbox.rows, row.Carries d) ∨ d.executionId ∈ s.acked ∨ d.executionId ∈ s.dropped

def Careful (s : State) : Act → Prop
  -- what is read back has been queued
  | .evaluate _ key _ => ∀ d, s.cache.lookup key = some d → s.Queued d
  -- the execution id is that of no other decision
  | .enqueue p _ => ∀ key d, s.process p = .persisted key d ∨ s.process p = .cached d →
      d.executionId ∉ s.outbox.ids
  -- the execution does not complete on its resumption
  | .resume _ _ d => d.status ≠ .completed
  | .flushOne p bundle results d => ∀ e todo updated, s.process p = .flushing (e :: todo) updated →
      (flushExecution bundle results d e).decision.status = .completed →
        resumes bundle { e.decision with
          pendingOperations := dispatch results e.decision.pendingOperations } = false ∧
        (e.ofBundle = true → s.Queued e.decision)
  -- an answer lists some of the batch
  | .answer _ response _ => (uploadDecisions response).ok = true →
      (uploadDecisions response).ackedIds ≠ []
  | _ => True

variable {d e : Decision} {row : PendingDecision}

theorem Carries.congr (h : SameRecord d e) (hrow : row.Carries d) : row.Carries e := by
  obtain ⟨hid, now, hpayload⟩ := hrow
  have hsame : d.executionId = e.executionId := congrArg Record.id (h now)
  exact ⟨hid.trans hsame, now, hpayload.trans (h now)⟩

theorem Accounted.congr {s : State} (h : SameRecord d e) (hd : s.Accounted d) : s.Accounted e := by
  have hsame : d.executionId = e.executionId := congrArg Record.id (h "")
  obtain ⟨row, hrow, hcarries⟩ | hd := hd
  · exact .inl ⟨row, hrow, Carries.congr h hcarries⟩
  · rw [hsame] at hd
    exact .inr hd

namespace DecisionOutbox
variable {o : DecisionOutbox} {d : Decision} {row : PendingDecision}

theorem enqueue_rows (now : String) (hfresh : d.executionId ∉ o.ids) :
    (o.enqueue (toPending d now)).rows = o.rows ++ [toPending d now] := by
  have hid : (toPending d now).id ∉ o.ids := hfresh
  rw [enqueue, if_neg hid]

theorem mem_enqueue (decision : PendingDecision) (h : row ∈ o.rows) :
    row ∈ (o.enqueue decision).rows := by
  rw [enqueue]
  split
  · exact h
  · exact List.mem_append_left _ h

theorem mem_remove {ids : List String} (h : row ∈ o.rows) :
    row ∈ (o.remove ids).rows ∨ row.id ∈ ids := by
  by_cases hid : row.id ∈ ids
  · exact .inr hid
  · exact .inl (List.mem_filter.2 ⟨h, decide_eq_true hid⟩)

theorem mem_recordFailure (ids : List String) (nextAttemptAtMs : ℤ) (h : row ∈ o.rows)
    (hcarries : row.Carries d) :
    ∃ row' ∈ (o.recordFailure ids nextAttemptAtMs).rows, row'.Carries d := by
  have hfold : ∀ rows : List PendingDecision, (∃ row ∈ rows, row.Carries d) →
      ∃ row ∈ ids.foldl (bump nextAttemptAtMs) rows, row.Carries d := by
    induction ids with
    | nil => exact fun rows h => h
    | cons id ids ih =>
      rintro rows ⟨row, hrow, hcarries⟩
      refine ih _ ⟨_, List.mem_map_of_mem hrow, ?_⟩
      split <;> exact hcarries
  exact hfold o.rows ⟨row, h, hcarries⟩

theorem mem_trimToCapacity (maxRows : ℤ) (h : row ∈ o.rows) :
    row ∈ (o.trimToCapacity maxRows).1.rows ∨
      row.id ∈ (o.overflowing maxRows).map PendingDecision.id := by
  rw [trimToCapacity]
  split
  · exact .inl h
  · exact mem_remove h

theorem overflowing_length_le (maxRows : ℤ) :
    ((o.overflowing maxRows).length : ℤ) ≤ (o.trimToCapacity maxRows).2 := by
  rw [trimToCapacity, overflowing, List.length_take]
  split <;> omega

end DecisionOutbox

theorem mem_settle {o : DecisionOutbox}
    (batch : List PendingDecision) (response : Response) (nextAttemptAtMs : ℤ)
    (hlists : (uploadDecisions response).ok = true → (uploadDecisions response).ackedIds ≠ [])
    (h : row ∈ o.rows) (hcarries : row.Carries d) :
    (∃ row' ∈ (settle o batch response nextAttemptAtMs).1.rows, row'.Carries d) ∨
      row.id ∈ (uploadDecisions response).ackedIds := by
  rw [settle]
  split
  · next hok =>
    rw [if_neg (hlists hok)]
    obtain hkept | hlisted := DecisionOutbox.mem_remove h
    · exact .inl ⟨row, hkept, hcarries⟩
    · exact .inr hlisted
  · exact .inl (DecisionOutbox.mem_recordFailure _ _ h hcarries)

/-! ## What is kept -/

def PhaseOk (s : State) : Process → Prop
  | .resumed d | .sending d => d.status ≠ .completed
  | .flushing _ updated => ∀ e ∈ updated, e.ofBundle = true → e.decision.status = .completed →
      s.Queued e.decision
  | _ => True

/-- What has been queued is accounted for, and what has been returned has been
    queued. -/
structure Inv (s : State) : Prop where
  accounted : ∀ d ∈ s.queued, s.Accounted d
  returned : ∀ d ∈ s.returned, s.Queued d
  phase : ∀ p, PhaseOk s (s.process p)

section Steps
variable {cfg : DecisionSyncConfig} {s s' : State} {a : Act}

variable {d : Decision} {process : Process} {p : ℕ}

theorem Queued.mono (hsub : s.queued ⊆ s'.queued) (h : s.Queued d) : s'.Queued d := by
  obtain ⟨e, he, hsame⟩ := h
  exact ⟨e, hsub he, hsame⟩

theorem PhaseOk.mono (hsub : s.queued ⊆ s'.queued)
    (h : PhaseOk s process) : PhaseOk s' process := by
  cases process with
  | flushing todo updated => exact fun e he hof hstatus => Queued.mono hsub (h e he hof hstatus)
  | resumed d => exact h
  | sending d => exact h
  | _ => trivial

/-- A step of call `p`: what was accounted for still is, and what is new in
    `queued`, in `returned` and in the call is right. -/
theorem Inv.move (h : Inv s)
    (hprocess : s'.process = Function.update s.process p process) (hsub : s.queued ⊆ s'.queued)
    (hkeep : ∀ d, s.Accounted d → s'.Accounted d)
    (hqueued : ∀ d ∈ s'.queued, d ∈ s.queued ∨ s'.Accounted d)
    (hreturned : ∀ d ∈ s'.returned, d ∈ s.returned ∨ s'.Queued d)
    (hphase : PhaseOk s' process) : Inv s' := by
  refine ⟨fun d hd => ?_, fun d hd => ?_, fun q => ?_⟩
  · obtain hd | hd := hqueued d hd
    · exact hkeep d (h.accounted d hd)
    · exact hd
  · obtain hd | hd := hreturned d hd
    · exact Queued.mono hsub (h.returned d hd)
    · exact hd
  · rw [hprocess, Function.update_apply]
    split
    · exact hphase
    · exact (h.phase q).mono hsub

theorem Inv.quiet (h : Inv s)
    (hprocess : s'.process = Function.update s.process p process) (hqueued : s'.queued = s.queued)
    (hreturned : s'.returned = s.returned) (hkeep : ∀ d, s.Accounted d → s'.Accounted d)
    (hphase : PhaseOk s' process) : Inv s' := by
  refine h.move hprocess (hqueued ▸ List.Subset.refl _) hkeep ?_ ?_ hphase
  · rw [hqueued]
    exact fun d hd => .inl hd
  · rw [hreturned]
    exact fun d hd => .inl hd

theorem give_eq (e : Execution) : s.give e = { s with returned := (s.give e).returned } := by
  rw [State.give]
  split <;> rfl

theorem mem_give {e : Execution} (h : d ∈ (s.give e).returned) :
    d ∈ s.returned ∨ e.ofBundle = true ∧ e.decision.status = .completed ∧ d = e.decision := by
  grind [State.give]

theorem foldl_give_eq (es : List Execution) (s : State) :
    es.foldl State.give s = { s with returned := (es.foldl State.give s).returned } := by
  induction es generalizing s with
  | nil => rfl
  | cons e es ih => rw [List.foldl_cons, ih, give_eq]

theorem mem_foldl_give {es : List Execution} (h : d ∈ (es.foldl State.give s).returned) :
    d ∈ s.returned ∨
      ∃ e ∈ es, e.ofBundle = true ∧ e.decision.status = .completed ∧ d = e.decision := by
  induction es generalizing s with
  | nil => exact .inl h
  | cons e es ih =>
    obtain h | ⟨e', he', hgiven⟩ := ih h
    · obtain h | hgiven := mem_give h
      · exact .inl h
      · exact .inr ⟨e, List.mem_cons_self, hgiven⟩
    · exact .inr ⟨e', List.mem_cons_of_mem _ he', hgiven⟩

theorem accounted_keep (hrows : ∀ d, ∀ row ∈ s.outbox.rows, row.Carries d →
      (∃ row' ∈ s'.outbox.rows, row'.Carries d) ∨ row.id ∈ s'.acked ∨ row.id ∈ s'.dropped)
    (hacked : s.acked ⊆ s'.acked) (hdropped : s.dropped ⊆ s'.dropped) (d : Decision)
    (h : s.Accounted d) : s'.Accounted d := by
  obtain ⟨row, hrow, hcarries⟩ | hlisted | hgone := h
  · obtain hkept | hgone := hrows d row hrow hcarries
    · exact .inl hkept
    · rw [hcarries.1] at hgone
      exact .inr hgone
  · exact .inr (.inl (hacked hlisted))
  · exact .inr (.inr (hdropped hgone))

theorem Inv.enqueued (h : Inv s) (now : String) (hfresh : d.executionId ∉ s.outbox.ids)
    (hs' : s' = (({ s with
      outbox := s.outbox.enqueue (toPending d now)
      queued := s.queued ++ [d] }).give ⟨d, true⟩).go p .idle) : Inv s' := by
  have hself : SameRecord d d := fun _ => rfl
  rw [give_eq] at hs'
  subst hs'
  refine h.move rfl (List.subset_append_left _ _) ?_ ?_ ?_ trivial
  · refine accounted_keep ?_ (List.Subset.refl _) (List.Subset.refl _)
    exact fun e row hrow hcarries => .inl ⟨row, DecisionOutbox.mem_enqueue _ hrow, hcarries⟩
  · intro e he
    obtain he | he := List.mem_append.1 he
    · exact .inl he
    · cases List.mem_singleton.1 he
      refine .inr (.inl ⟨toPending d now, ?_, rfl, now, rfl⟩)
      show _ ∈ (s.outbox.enqueue (toPending d now)).rows
      rw [DecisionOutbox.enqueue_rows now hfresh]
      exact List.mem_append_right _ (List.mem_singleton_self _)
  · intro e he
    obtain he | ⟨-, -, rfl⟩ := mem_give he
    · exact .inl he
    · exact .inr ⟨_, List.mem_append_right _ (List.mem_singleton_self _), hself⟩

/-- **One step.** -/
theorem Inv.step (h : Inv s) (hok : Careful s a) (hs : step cfg s a = some s') : Inv s' := by
  have hself : ∀ d : Decision, SameRecord d d := fun _ _ => rfl
  cases a with
  | evaluate p key d =>
    simp only [Device.step] at hs
    split at hs
    · next cached hat hcached =>
      split at hs
      · cases hs
        rw [give_eq]
        refine ⟨h.accounted, fun e he => ?_, h.phase⟩
        obtain he | ⟨-, -, rfl⟩ := mem_give he
        · exact h.returned e he
        · exact hok _ hcached
      · cases hs
        exact h.quiet rfl rfl rfl (fun _ hd => hd) trivial
    · cases hs
      exact h.quiet rfl rfl rfl (fun _ hd => hd) trivial
    · cases hs
  | persist p =>
    simp only [Device.step] at hs
    split at hs
    · cases hs
      exact h.quiet rfl rfl rfl (fun _ hd => hd) trivial
    · next d hat =>
      cases hs
      have hphase := h.phase p
      rw [hat] at hphase
      exact h.quiet rfl rfl rfl (fun _ hd => hd) hphase
    · cases hs
  | put p =>
    simp only [Device.step] at hs
    split at hs
    · split at hs
      · cases hs
        exact h.quiet rfl rfl rfl (fun _ hd => hd) trivial
      · cases hs
    · cases hs
  | enqueue p now =>
    simp only [Device.step] at hs
    split at hs
    · next key d hat =>
      split at hs
      · exact h.enqueued now (hok key d (.inl hat)) (Option.some.inj hs).symm
      · cases hs
    · next d hat => exact h.enqueued now (hok "" d (.inr hat)) (Option.some.inj hs).symm
    · cases hs
  | syncDecision p =>
    simp only [Device.step] at hs
    split at hs
    · next key d hat =>
      split at hs
      · cases hs
      · next hopen =>
        cases hs
        rw [give_eq]
        refine h.move rfl (List.Subset.refl _) (fun _ hd => hd) (fun _ hd => .inl hd) ?_ trivial
        intro e he
        obtain he | ⟨-, hdone, -⟩ := mem_give he
        · exact .inl he
        · exact absurd hdone hopen
    · next d hat =>
      cases hs
      have hopen := h.phase p
      rw [hat] at hopen
      rw [give_eq]
      refine h.move rfl (List.Subset.refl _) (fun _ hd => hd) (fun _ hd => .inl hd) ?_ trivial
      intro e he
      obtain he | ⟨-, hdone, -⟩ := mem_give he
      · exact .inl he
      · exact absurd hdone hopen
    · cases hs
  | resume p executionId d =>
    simp only [Device.step] at hs
    split at hs
    · split at hs
      · cases hs
        exact h.quiet rfl rfl rfl (fun _ hd => hd) hok
      · cases hs
    · cases hs
  | server d =>
    cases hs
    exact ⟨h.accounted, h.returned, h.phase⟩
  | flush p =>
    simp only [Device.step] at hs
    split at hs
    · cases hs
      refine h.quiet rfl rfl rfl (fun _ hd => hd) ?_
      exact fun e he => absurd he List.not_mem_nil
    · cases hs
  | flushOne p bundle results d =>
    simp only [Device.step] at hs
    split at hs
    · next e todo updated hat =>
      cases hs
      have hphase := h.phase p
      rw [hat] at hphase
      refine h.quiet rfl rfl rfl (fun _ hd => hd) fun e' he' hof hstatus => ?_
      obtain he' | he' := List.mem_append.1 he'
      · exact hphase e' he' hof hstatus
      · rw [List.mem_singleton] at he'
        subst he'
        obtain ⟨hnot, hqueued⟩ := hok e todo updated hat hstatus
        rw [flushExecution, hnot] at hof ⊢
        exact hqueued hof
    · cases hs
  | flushed p =>
    simp only [Device.step] at hs
    split at hs
    · next updated hat =>
      cases hs
      have hphase := h.phase p
      rw [hat] at hphase
      rw [foldl_give_eq]
      refine h.move rfl (List.Subset.refl _) (fun _ hd => hd) (fun _ hd => .inl hd) ?_ trivial
      intro d hd
      obtain hd | ⟨e, he, hof, hstatus, rfl⟩ := mem_foldl_give hd
      · exact .inl hd
      · exact .inr (hphase e he hof hstatus)
    · cases hs
  | fails p =>
    simp only [Device.step] at hs
    split at hs
    · cases hs
    · cases hs
    · cases hs
      exact h.quiet rfl rfl rfl (fun _ hd => hd) trivial
  | forget key =>
    cases hs
    exact ⟨h.accounted, h.returned, h.phase⟩
  | sync p =>
    simp only [Device.step] at hs
    split at hs
    · cases hs
      refine h.quiet rfl rfl rfl (accounted_keep ?_ (List.Subset.refl _)
        (List.subset_append_left _ _)) trivial
      intro d row hrow hcarries
      obtain hkept | hgone := DecisionOutbox.mem_trimToCapacity cfg.capacity hrow
      · exact .inl ⟨row, hkept, hcarries⟩
      · exact .inr (.inr (List.mem_append_right _ hgone))
    · cases hs
  | pending p nowMs =>
    simp only [Device.step] at hs
    split at hs
    · split at hs
      · split at hs
        · cases hs
          exact h.quiet rfl rfl rfl (fun _ hd => hd) trivial
        · cases hs
          exact h.quiet rfl rfl rfl (fun _ hd => hd) trivial
      · cases hs
        exact h.quiet rfl rfl rfl (fun _ hd => hd) trivial
    · cases hs
  | answer p response nextAttemptAtMs =>
    simp only [Device.step] at hs
    split at hs
    · next stats runs batch hat =>
      have hkeep : ∀ d, s.Accounted d → State.Accounted { s with
          outbox := (settle s.outbox batch response nextAttemptAtMs).1
          acked := s.acked ++ (uploadDecisions response).ackedIds } d := by
        refine accounted_keep ?_ (List.subset_append_left _ _) (List.Subset.refl _)
        intro d row hrow hcarries
        obtain hkept | hlisted := mem_settle batch response nextAttemptAtMs hok hrow hcarries
        · exact .inl hkept
        · exact .inr (.inl (List.mem_append_right _ hlisted))
      split at hs
      · cases hs
        exact h.quiet rfl rfl rfl hkeep trivial
      · cases hs
        exact h.quiet rfl rfl rfl hkeep trivial
    · cases hs

theorem inv_init : Inv State.init := by
  refine ⟨?_, ?_, fun p => trivial⟩
  · intro d hd
    cases hd
  · intro d hd
    cases hd

@[simp] theorem go_dropped (p : ℕ) (process : Process) : (s.go p process).dropped = s.dropped := rfl

@[simp] theorem go_counted (p : ℕ) (process : Process) : (s.go p process).counted = s.counted := rfl

@[simp] theorem give_dropped (e : Execution) : (s.give e).dropped = s.dropped := by rw [give_eq]

@[simp] theorem give_counted (e : Execution) : (s.give e).counted = s.counted := by rw [give_eq]

@[simp] theorem foldl_give_dropped (es : List Execution) :
    (es.foldl State.give s).dropped = s.dropped := by rw [foldl_give_eq]

@[simp] theorem foldl_give_counted (es : List Execution) :
    (es.foldl State.give s).counted = s.counted := by rw [foldl_give_eq]

theorem step_dropped (h : (s.dropped.length : ℤ) ≤ s.counted) (hs : Device.step cfg s a = some s') :
    (s'.dropped.length : ℤ) ≤ s'.counted := by
  cases a with
  | sync p =>
    simp only [Device.step] at hs
    split at hs
    · cases hs
      have hcounts := s.outbox.overflowing_length_le cfg.capacity
      simp only [go_dropped, go_counted, List.length_append, List.length_map]
      omega
    · cases hs
  | _ =>
    simp only [Device.step] at hs
    repeat' split at hs
    all_goals cases hs
    all_goals simpa [State.passed] using h

end Steps

/-- **No decision is lost silently.**  In every run of careful steps each
    completed decision of a bundle that a call has returned is in the outbox, or
    listed by the server under its id, or dropped by a trim; and in every run the
    trims count what they drop. -/
theorem returned_accounted (cfg : DecisionSyncConfig) :
    (∀ s, Reach (step cfg) Careful State.init s → ∀ d ∈ s.returned, s.Accounted d) ∧
      ∀ s, Reachable (step cfg) State.init s → (s.dropped.length : ℤ) ≤ s.counted := by
  constructor
  · intro s hs d hd
    have hinv : Inv s := hs.invariant inv_init fun _ _ _ => Inv.step
    obtain ⟨e, he, hsame⟩ := hinv.returned d hd
    exact Accounted.congr hsame (hinv.accounted e he)
  · intro s hs
    refine hs.invariant (I := fun s => (s.dropped.length : ℤ) ≤ s.counted) le_rfl ?_
    exact fun _ _ _ h _ hstep => step_dropped h hstep

/-! ### Runs that lose a decision -/

def defaults : DecisionSyncConfig := ⟨200, 50000, 100⟩

def approved : Decision := ⟨"exec_1", "p1", .completed, "approve", "{}", []⟩

def held : Decision := { approved with status := .paused, outcome := "pending" }

def resumedRun : List Act :=
  [.evaluate 0 "key" held, .persist 0, .syncDecision 0, .resume 0 "exec_1" approved, .persist 0,
    .syncDecision 0]

def evaluated : List Act := [.evaluate 0 "key" approved, .persist 0, .put 0, .enqueue 0 "t0"]

/-- The upload is answered by a list that names no decision. -/
def emptyAnswerRun : List Act :=
  evaluated ++ [Act.sync 0, Act.pending 0 0, Act.answer 0 (.answered 200 (some (some []))) 0]

/-- The cache is read before the decision is in the outbox, where it never comes. -/
def earlyReadRun : List Act :=
  [.evaluate 0 "key" approved, .persist 0, .put 0, .evaluate 1 "key" approved, .fails 0]

/-- A run after which a returned decision is gone. -/
def Loses (run : List Act) : Prop :=
  ∃ s, Reachable (step defaults) State.init s ∧
    exec (step defaults) State.init run = some s ∧ ∃ d ∈ s.returned, ¬ s.Accounted d

theorem loses_of_exec {run : List Act} (h : (exec (step defaults) State.init run).map
    (fun s => (s.returned, s.outbox.rows, s.acked, s.dropped)) = some ([approved], [], [], [])) :
    Loses run := by
  obtain ⟨s, hs, hseen⟩ := Option.map_eq_some_iff.1 h
  obtain ⟨hreturned, hrows, hacked, hdropped⟩ := by simpa only [Prod.mk.injEq] using hseen
  refine ⟨s, reachable_exec hs, hs, approved, hreturned ▸ List.mem_singleton_self _, ?_⟩
  rintro (⟨row, hrow, -⟩ | hlisted | hgone)
  · rw [hrows] at hrow
    exact absurd hrow List.not_mem_nil
  · rw [hacked] at hlisted
    exact absurd hlisted List.not_mem_nil
  · rw [hdropped] at hgone
    exact absurd hgone List.not_mem_nil

/-- **Decisions are lost** on a resumption, on an empty list of acknowledged ids,
    and when the cache is ahead of the outbox. -/
theorem decision_lost : Loses resumedRun ∧ Loses emptyAnswerRun ∧ Loses earlyReadRun :=
  ⟨loses_of_exec rfl, loses_of_exec rfl, loses_of_exec rfl⟩

/-- A decision is evaluated and uploaded, and its id is listed. -/
theorem returned_accounted_uploaded : ∃ s,
    exec (step defaults) State.init (evaluated ++
      [Act.sync 0, Act.pending 0 0, Act.answer 0 (.answered 200 (some (some ["exec_1"]))) 0]) = some s ∧
      (∀ d ∈ s.returned, s.Accounted d) ∧ (s.dropped.length : ℤ) ≤ s.counted := by
  have hexec : exec (step defaults) State.init (evaluated ++
      [Act.sync 0, Act.pending 0 0, Act.answer 0 (.answered 200 (some (some ["exec_1"]))) 0]) = some _ := rfl
  have hall := returned_accounted defaults
  refine ⟨_, hexec, hall.1 _ (reach_exec hexec ?_), hall.2 _ (reachable_exec hexec)⟩
  refine .cons ?_ rfl (.cons trivial rfl (.cons trivial rfl (.cons ?_ rfl
    (.cons trivial rfl (.cons trivial rfl (.cons ?_ rfl trivial))))))
  · rintro d ⟨⟩
  · rintro key d -
    exact List.not_mem_nil
  · exact fun _ => List.cons_ne_nil _ _

end RuleMind.Device
