/-
  Ingest of device decisions: `add_decisions_batch` of `app/storage.py`, with the decisions
  table and the usage counter it writes.

  A call reads the client ids that exist already, inserts record by record inside one
  transaction, commits, and then meters what it inserted in a transaction of its own.  Calls
  interleave; an insert waits for another transaction that holds the same client id.  The
  encrypted columns hold what the encryption gave, for some randomness.
-/
import RuleMind.Value
import RuleMind.Lib.Run
import Mathlib.Data.List.Nodup

namespace RuleMind.Ingest

open Lib

/-! ### Rows -/

/-- A row of the decisions table; the columns from `payloadPreview` to `trace` are encrypted.
    Times are in microseconds since the first of January of year 1. -/
structure Decision where
  id : String
  tenantId : String
  clientId : Option String
  userId : Value
  policyId : Value
  payloadHash : String
  payloadPreview : Value
  computedVariables : Value
  ruleResults : Value
  scorecardResult : Value
  trace : Value
  outcome : Value
  latencyMs : ℤ
  source : Value
  sdkVersion : Value
  experimentId : Value
  experimentVariant : Value
  deviceId : Value
  bundleHash : Value
  createdAt : ℤ
  receivedAt : ℤ
  deriving DecidableEq

/-- What `datetime.fromisoformat` reads: a time, and its offset from UTC if it has one. -/
structure ClientTime where
  time : ℤ
  offset : Option ℤ

structure Services where
  fromIsoFormat : String → Option ClientTime
  /-- `decision_payload_hash`. -/
  payloadHash : Value → String
  /-- `encrypt_decision_field`, with its randomness and the column it is for. -/
  encrypt : ℕ → String → Value → Value
  /-- The driver can bind the values of a row. -/
  binds : Decision → Bool

/-- Where the years end that a `datetime` can be in. -/
def DATETIME_END : ℤ := 3652059 * 86400 * 10 ^ 6

/-- `value.replace("Z", "+00:00")`. -/
def replaceZ (s : String) : String :=
  String.ofList (s.toList.flatMap fun c => if c = 'Z' then "+00:00".toList else [c])

def parseClientDatetime (svc : Services) : Value → Except PyError (Option ℤ)
  | .str s =>
    if s = "" then .ok none
    else match svc.fromIsoFormat (replaceZ s) with
      | none => .ok none
      | some ⟨t, none⟩ => .ok (some t)
      -- `astimezone` is outside the `try`
      | some ⟨t, some offset⟩ =>
        if 0 ≤ t - offset ∧ t - offset < DATETIME_END then .ok (some (t - offset))
        else .error .overflowError
  | _ => .ok none

/-- `record.get(a) or record.get(b)`. -/
def either (record : Dict) (a b : String) : Value :=
  Value.orElse (record.lookup a) ((record.lookup b).getD .null)

section Records
variable (py : PyText) (svc : Services)

def clientIdOf (record : Dict) : Option String :=
  match record.lookup "id" with
  | some v => if v.truthy then some (py.str v) else none
  | none => none

def outcomeOf (record : Dict) : Value := (record.lookup "outcome").getD (.str "pending")

def sourceOf (record : Dict) : Value := (record.lookup "source").getD (.str "on_device")

def decisionOf (uuid : String) (salt : ℕ) (tenant : String) (record : Dict) (now : ℤ) :
    Except PyError Decision := do
  let preview := (record.lookup "payload").getD (.dict [])
  let encrypted (column : String) (default : Value) : Value :=
    svc.encrypt salt column ((record.lookup column).getD default)
  let latency ← pyIntOf py (Value.orElse (some ((record.lookup "latency_ms").getD
    ((record.lookup "latencyMs").getD (.int 0)))) (.int 0))
  let created ← parseClientDatetime svc (either record "created_at" "createdAt")
  pure {
    id := uuid
    tenantId := tenant
    clientId := clientIdOf py record
    userId := .null
    policyId := either record "policy_id" "policyId"
    payloadHash := svc.payloadHash preview
    payloadPreview := svc.encrypt salt "payload_preview" preview
    computedVariables := encrypted "computed_variables" (.dict [])
    ruleResults := encrypted "rule_results" (.list [])
    scorecardResult := encrypted "scorecard_result" .null
    trace := encrypted "trace" (.list [])
    outcome := outcomeOf record
    latencyMs := latency
    source := sourceOf record
    sdkVersion := either record "sdk_version" "sdkVersion"
    experimentId := either record "experiment_id" "experimentId"
    experimentVariant := either record "experiment_variant" "experimentVariant"
    deviceId := either record "device_id" "deviceId"
    bundleHash := either record "bundle_hash" "bundleHash"
    createdAt := created.getD now
    receivedAt := now }

theorem decisionOf_eq_ok {uuid tenant : String} {salt : ℕ} {record : Dict} {now : ℤ}
    {d : Decision} (h : decisionOf py svc uuid salt tenant record now = .ok d) :
    d.tenantId = tenant ∧ d.clientId = clientIdOf py record ∧ d.id = uuid ∧
      d.outcome = outcomeOf record ∧ d.source = sourceOf record ∧ d.receivedAt = now ∧
      ∃ created, parseClientDatetime svc (either record "created_at" "createdAt") = .ok created ∧
        d.createdAt = created.getD now := by
  unfold decisionOf at h
  cases hl : pyIntOf py (Value.orElse (some ((record.lookup "latency_ms").getD
      ((record.lookup "latencyMs").getD (.int 0)))) (.int 0)) with
  | error e =>
    rw [hl] at h
    cases h
  | ok latency =>
    rw [hl] at h
    cases hc : parseClientDatetime svc (either record "created_at" "createdAt") with
    | error e =>
      rw [hc] at h
      cases h
    | ok created =>
      rw [hc] at h
      cases h
      exact ⟨rfl, rfl, rfl, rfl, rfl, rfl, created, rfl, rfl⟩

end Records

/-! ### Calls -/

structure Stored where
  call : ℕ
  decision : Decision

/-- The unique key of a row, where it has a client id. -/
def Decision.key (d : Decision) : Option (String × String) := d.clientId.map (d.tenantId, ·)

def Stored.key (r : Stored) : Option (String × String) := r.decision.key

structure Accepted where
  tenant : String
  client : String
  record : Dict
  now : ℤ

structure Call where
  n : ℕ
  tenant : String
  existing : List String
  seen : List String
  todo : List Dict
  entries : List Accepted
  /-- The acknowledged ids; `none` for a fresh one. -/
  acked : List (Option String)
  inserted : ℕ
  now : ℤ

inductive Phase
  | idle
  | started (n : ℕ) (tenant : String) (batch : List Dict)
  | ingesting (k : Call)
  | committed (n : ℕ) (tenant : String) (acked : List (Option String)) (inserted : ℕ)

structure State where
  now : ℤ
  rows : List Stored
  /-- The rows of transactions that are not committed. -/
  pending : List Stored
  metered : String → ℕ
  /-- The calls that are over. -/
  settled : List ℕ
  nextCall : ℕ
  process : ℕ → Phase
  accepted : List Accepted
  acked : List (String × Option String)

def State.init : State := ⟨0, [], [], fun _ => 0, [], 0, fun _ => .idle, [], []⟩

def State.go (s : State) (c : ℕ) (ph : Phase) : State :=
  { s with process := Function.update s.process c ph }

def mine (n : ℕ) (rows : List Stored) : List Stored := rows.filter fun r => r.call = n

def others (n : ℕ) (rows : List Stored) : List Stored := rows.filter fun r => r.call ≠ n

inductive Act
  | wait (duration : ℕ)
  | begin (c : ℕ) (tenant : String) (batch : List Dict)
  | select (c : ℕ)
  /-- The next record, with the id and the randomness its row gets. -/
  | handle (c : ℕ) (uuid : String) (salt : ℕ)
  | commit (c : ℕ)
  | abort (c : ℕ)
  | meter (c : ℕ)
  | meterFails (c : ℕ)
  | crash (c : ℕ)

section Steps
variable (py : PyText) (svc : Services)

def Call.next (k : Call) (record : Dict) (rest : List Dict) : Call :=
  { k with
    todo := rest
    acked := k.acked ++ [clientIdOf py record]
    entries := k.entries ++
      ((clientIdOf py record).map fun x => (⟨k.tenant, x, record, k.now⟩ : Accepted)).toList }

def Call.duplicate (k : Call) (record : Dict) : Bool :=
  (clientIdOf py record).any fun x => k.existing.contains x || k.seen.contains x

def Call.take (k : Call) (record : Dict) (rest : List Dict) : Call :=
  { k.next py record rest with seen := k.seen ++ (clientIdOf py record).toList }

def State.abort (s : State) (c n : ℕ) : State := { s with pending := others n s.pending }.go c .idle

def State.insert (s : State) (c : ℕ) (k : Call) (d : Decision) : Option State :=
  if d.outcome.isNull || d.source.isNull then some (s.go c (.ingesting k))
  else if (others k.n s.pending).any fun r => r.key.isSome && r.key = d.key then none
  else if (s.rows ++ s.pending).any fun r => r.key.isSome && r.key = d.key || r.decision.id = d.id
    then some (s.go c (.ingesting k))
  else some ({ s with pending := s.pending ++ [Stored.mk k.n d] }.go c
    (.ingesting { k with inserted := k.inserted + 1 }))

def step (s : State) (a : Act) : Option State :=
  match a with
  | .wait duration => some { s with now := s.now + duration }
  | .begin c tenant batch =>
    match s.process c with
    | .idle => some ({ s with nextCall := s.nextCall + 1 }.go c (.started s.nextCall tenant batch))
    | _ => none
  | .select c =>
    match s.process c with
    | .started n tenant batch =>
      let clientIds := batch.filterMap (clientIdOf py)
      let existing := s.rows.filterMap fun r =>
        r.decision.clientId.filter fun x => r.decision.tenantId = tenant ∧ x ∈ clientIds
      some (s.go c (.ingesting ⟨n, tenant, existing, [], batch, [], [], 0, s.now⟩))
    | _ => none
  | .handle c uuid salt =>
    match s.process c with
    | .ingesting k =>
      match k.todo with
      | record :: rest =>
        if k.duplicate py record then some (s.go c (.ingesting (k.next py record rest)))
        else match decisionOf py svc uuid salt k.tenant record k.now with
          | .error _ => some (s.abort c k.n)
          | .ok d =>
            if svc.binds d then s.insert c (k.take py record rest) d else some (s.abort c k.n)
      | [] => none
    | _ => none
  | .commit c =>
    match s.process c with
    | .ingesting k =>
      match k.todo with
      | [] =>
        some ({ s with
          rows := s.rows ++ mine k.n s.pending
          pending := others k.n s.pending
          accepted := s.accepted ++ k.entries }.go c (.committed k.n k.tenant k.acked k.inserted))
      | _ :: _ => none
    | _ => none
  | .abort c =>
    match s.process c with
    | .started _ _ _ => some (s.go c .idle)
    | .ingesting k => some (s.abort c k.n)
    | _ => none
  -- `record_usage`, and the return
  | .meter c =>
    match s.process c with
    | .committed n tenant acked inserted =>
      some ({ s with
        metered := Function.update s.metered tenant (s.metered tenant + inserted)
        settled := n :: s.settled
        acked := s.acked ++ acked.map (tenant, ·) }.go c .idle)
    | _ => none
  -- it never fails the call
  | .meterFails c =>
    match s.process c with
    | .committed n tenant acked _ =>
      some ({ s with
        settled := n :: s.settled
        acked := s.acked ++ acked.map (tenant, ·) }.go c .idle)
    | _ => none
  | .crash c =>
    match s.process c with
    | .committed n _ _ _ => some ({ s with settled := n :: s.settled }.go c .idle)
    | _ => none

end Steps

section Promise
variable (py : PyText) (svc : Services)

def Accepted.Gives (a : Accepted) (d : Decision) : Prop :=
  ∃ uuid salt, decisionOf py svc uuid salt a.tenant a.record a.now = .ok d

def Accepted.key (a : Accepted) : String × String := (a.tenant, a.client)

/-- Each acknowledged client id has one row, of the record accepted first, and the meter counts
    the rows of the calls that are over. -/
structure ExactlyOnce (s : State) : Prop where
  one : ∀ t x, (t, some x) ∈ s.acked → ∃ r a,
    (s.rows.filter fun r => r.key = some (t, x)) = [r] ∧
      s.accepted.find? (fun a => a.key = (t, x)) = some a ∧ a.Gives py svc r.decision
  metered : ∀ t, s.metered t = s.rows.countP fun r => r.decision.tenantId = t ∧ r.call ∈ s.settled

/-- A record whose client id is new has an outcome and a source, and its row an id of its own;
    and a call that has inserted something meters it. -/
def Clean (s : State) : Act → Prop
  | .handle c uuid _ => ∀ k record rest x, s.process c = .ingesting k →
      k.todo = record :: rest → clientIdOf py record = some x → k.duplicate py record = false →
      (∀ r ∈ s.rows, r.key ≠ some (k.tenant, x)) →
      (outcomeOf record).isNull = false ∧ (sourceOf record).isNull = false ∧
        ∀ r ∈ s.rows ++ s.pending, r.decision.id ≠ uuid
  | .meterFails c | .crash c => ∀ n tenant acked inserted,
      s.process c = .committed n tenant acked inserted → inserted = 0
  | _ => True

end Promise

/-! ### The invariant -/

section Ingest
variable {py : PyText} {svc : Services} {s s' t : State}

@[simp] theorem go_process (s : State) (c : ℕ) (ph : Phase) (d : ℕ) :
    (s.go c ph).process d = if d = c then ph else s.process d := by
  simp [State.go, Function.update_apply]

variable {n c : ℕ} {rows : List Stored} {r : Stored} {k : Call} {ph : Phase} {record : Dict} {x
  tenant : String}

theorem mem_mine : r ∈ mine n rows ↔ r ∈ rows ∧ r.call = n := by simp [mine]

theorem mem_others : r ∈ others n rows ↔ r ∈ rows ∧ r.call ≠ n := by simp [others]

theorem mine_append (n : ℕ) (a b : List Stored) : mine n (a ++ b) = mine n a ++ mine n b :=
  List.filter_append ..

theorem mine_mine_of_ne {m : ℕ} (h : m ≠ n) (rows : List Stored) : mine m (mine n rows) = [] := by
  refine List.filter_eq_nil_iff.2 fun r hr => ?_
  have hn := (mem_mine.1 hr).2
  simpa [hn] using h.symm

theorem mine_mine (n : ℕ) (rows : List Stored) : mine n (mine n rows) = mine n rows := by
  refine List.filter_eq_self.2 fun r hr => ?_
  simpa using (mem_mine.1 hr).2

theorem mine_others_of_ne {m : ℕ} (h : m ≠ n) (rows : List Stored) :
    mine m (others n rows) = mine m rows := by
  unfold mine others
  rw [List.filter_filter]
  grind

theorem mine_others_perm (n : ℕ) (rows : List Stored) :
    (mine n rows ++ others n rows).Perm rows := by
  grind [List.filter_append_perm, mine, others]

def Phase.call : Phase → Option ℕ
  | .idle => none
  | .started n _ _ | .committed n _ _ _ => some n
  | .ingesting k => some k.n

/-- What a call has done inside its transaction, and what it has read still holds. -/
structure CallOk (py : PyText) (svc : Services) (s : State) (k : Call) : Prop where
  lt : k.n < s.nextCall
  unsettled : k.n ∉ s.settled
  noRows : mine k.n s.rows = []
  count : (mine k.n s.pending).length = k.inserted
  tenants : ∀ r ∈ mine k.n s.pending, r.decision.tenantId = k.tenant
  entriesTenant : ∀ a ∈ k.entries, a.tenant = k.tenant
  existing : ∀ x ∈ k.existing, ∃ r ∈ s.rows, r.key = some (k.tenant, x)
  seen : ∀ x ∈ k.seen, ∃ a ∈ k.entries, a.client = x
  stored : ∀ a ∈ k.entries, ∃ r ∈ s.rows ++ mine k.n s.pending, r.key = some a.key
  first : ∀ r ∈ mine k.n s.pending, ∀ y, r.key = some y →
    ∃ a, k.entries.find? (fun a => a.key = y) = some a ∧ a.Gives py svc r.decision
  acked : ∀ x, some x ∈ k.acked → ∃ a ∈ k.entries, a.client = x

def PhaseOk (py : PyText) (svc : Services) (s : State) : Phase → Prop
  | .idle => True
  | .started n _ _ => n < s.nextCall ∧ n ∉ s.settled ∧ mine n s.rows = [] ∧ mine n s.pending = []
  | .ingesting k => CallOk py svc s k
  | .committed n tenant acked inserted => n < s.nextCall ∧ n ∉ s.settled ∧
      (mine n s.rows).length = inserted ∧ (∀ r ∈ mine n s.rows, r.decision.tenantId = tenant) ∧
      ∀ x, some x ∈ acked → ∃ a ∈ s.accepted, a.key = (tenant, x)

structure Sound (py : PyText) (svc : Services) (s : State) : Prop where
  bound : ∀ r ∈ s.rows ++ s.pending, r.call < s.nextCall
  boundSettled : ∀ n ∈ s.settled, n < s.nextCall
  keys : ((s.rows ++ s.pending).filterMap Stored.key).Nodup
  first : ∀ r ∈ s.rows, ∀ y, r.key = some y →
    ∃ a, s.accepted.find? (fun a => a.key = y) = some a ∧ a.Gives py svc r.decision
  stored : ∀ a ∈ s.accepted, ∃ r ∈ s.rows, r.key = some a.key
  acked : ∀ t x, (t, some x) ∈ s.acked → ∃ a ∈ s.accepted, a.key = (t, x)
  metered : ∀ t, s.metered t = s.rows.countP fun r => r.decision.tenantId = t ∧ r.call ∈ s.settled

structure Inv (py : PyText) (svc : Services) (s : State) : Prop where
  alone : ∀ c d n, (s.process c).call = some n → (s.process d).call = some n → c = d
  phase : ∀ c, PhaseOk py svc s (s.process c)
  sound : Sound py svc s

theorem inv_init : Inv py svc State.init where
  alone c d n h := by cases h
  phase c := trivial
  sound := ⟨nofun, nofun, List.nodup_nil, nofun, nofun, nofun, fun _ => rfl⟩

/-- A step of the call `n` leaves the others' rows, and forgets nothing. -/
structure Beside (s t : State) (n : ℕ) : Prop where
  process : t.process = s.process
  next : s.nextCall ≤ t.nextCall
  settled : ∀ m, m ≠ n → m ∈ t.settled → m ∈ s.settled
  rows : ∀ r ∈ s.rows, r ∈ t.rows
  mineRows : ∀ m, m ≠ n → mine m t.rows = mine m s.rows
  minePending : ∀ m, m ≠ n → mine m t.pending = mine m s.pending
  accepted : ∀ a ∈ s.accepted, a ∈ t.accepted

theorem CallOk.kept (h : CallOk py svc s k) (hb : Beside s t n)
    (hn : k.n ≠ n) : CallOk py svc t k where
  lt := Nat.lt_of_lt_of_le h.lt hb.next
  unsettled hm := h.unsettled (hb.settled _ hn hm)
  noRows := (hb.mineRows _ hn).trans h.noRows
  count := by rw [hb.minePending _ hn]; exact h.count
  tenants := by rw [hb.minePending _ hn]; exact h.tenants
  entriesTenant := h.entriesTenant
  existing x hx := by
    obtain ⟨r, hr, hk⟩ := h.existing x hx
    exact ⟨r, hb.rows r hr, hk⟩
  seen := h.seen
  stored a ha := by
    obtain ⟨r, hr, hk⟩ := h.stored a ha
    rw [hb.minePending _ hn]
    refine ⟨r, ?_, hk⟩
    rcases List.mem_append.1 hr with hr | hr
    · exact List.mem_append_left _ (hb.rows r hr)
    · exact List.mem_append_right _ hr
  first := by rw [hb.minePending _ hn]; exact h.first
  acked := h.acked

theorem PhaseOk.kept (h : PhaseOk py svc s ph) (hb : Beside s t n)
    (hn : ph.call ≠ some n) : PhaseOk py svc t ph := by
  cases ph with
  | idle => trivial
  | started m tenant batch =>
    have hm : m ≠ n := fun hm => hn (congrArg some hm)
    obtain ⟨hlt, hs, hr, hp⟩ := h
    exact ⟨Nat.lt_of_lt_of_le hlt hb.next, fun hx => hs (hb.settled _ hm hx),
      (hb.mineRows _ hm).trans hr, (hb.minePending _ hm).trans hp⟩
  | ingesting k => exact CallOk.kept h hb fun hm => hn (congrArg some hm)
  | committed m tenant acked inserted =>
    have hm : m ≠ n := fun hm => hn (congrArg some hm)
    obtain ⟨hlt, hs, hcount, htenant, hacked⟩ := h
    refine ⟨Nat.lt_of_lt_of_le hlt hb.next, fun hx => hs (hb.settled _ hm hx), ?_, ?_, ?_⟩
    · rw [hb.mineRows _ hm]
      exact hcount
    · rw [hb.mineRows _ hm]
      exact htenant
    · intro x hx
      obtain ⟨a, ha, hk⟩ := hacked x hx
      exact ⟨a, hb.accepted a ha, hk⟩

theorem PhaseOk.go {ph' : Phase} (h : PhaseOk py svc s ph') : PhaseOk py svc (s.go c ph) ph' := by
  cases ph' with
  | ingesting k =>
    exact ⟨h.lt, h.unsettled, h.noRows, h.count, h.tenants, h.entriesTenant, h.existing, h.seen,
      h.stored, h.first, h.acked⟩
  | idle | started _ _ _ | committed _ _ _ _ => exact h

/-- **A step of one call.** -/
theorem Inv.act (h : Inv py svc s) (hb : Beside s t n)
    (hothers : ∀ d, d ≠ c → (s.process d).call ≠ some n)
    (hcall : ∀ m, ph.call = some m → m = n) (hself : PhaseOk py svc t ph)
    (hsound : Sound py svc t) : Inv py svc (t.go c ph) where
  alone d e m hd he := by
    rw [go_process, hb.process] at hd he
    split at hd
    · grind
    · rename_i hdc
      split at he
      · exact absurd (hcall m he ▸ hd) (hothers d hdc)
      · exact h.alone d e m hd he
  phase d := by
    refine PhaseOk.go ?_
    rw [go_process, hb.process]
    split
    · exact hself
    · rename_i hdc
      exact (h.phase d).kept hb (hothers d hdc)
  sound := ⟨hsound.bound, hsound.boundSettled, hsound.keys, hsound.first, hsound.stored,
    hsound.acked, hsound.metered⟩

theorem Beside.refl (s : State) (n : ℕ) : Beside s s n :=
  ⟨rfl, Nat.le_refl _, fun _ _ hm => hm, fun _ hr => hr, fun _ _ => rfl, fun _ _ => rfl,
    fun _ ha => ha⟩

theorem Inv.call_lt (h : Inv py svc s) (hc : (s.process c).call = some n) : n < s.nextCall := by
  have hp := h.phase c
  cases hph : s.process c with
  | idle =>
    rw [hph] at hc
    cases hc
  | started m tenant batch =>
    rw [hph] at hc hp
    cases hc
    exact hp.1
  | ingesting k =>
    rw [hph] at hc hp
    cases hc
    exact hp.lt
  | committed m tenant acked inserted =>
    rw [hph] at hc hp
    cases hc
    exact hp.1

theorem Inv.others (h : Inv py svc s) (hc : (s.process c).call = some n) :
    ∀ d, d ≠ c → (s.process d).call ≠ some n := fun d hd hdn => hd (h.alone d c n hdn hc)

theorem Inv.move (h : Inv py svc s) (hc : (s.process c).call = some n)
    (hcall : ∀ m, ph.call = some m → m = n) (hself : PhaseOk py svc s ph) :
    Inv py svc (s.go c ph) :=
  h.act (Beside.refl s n) (h.others hc) hcall hself h.sound

/-! ### Records -/

theorem entries_next (k : Call) (record : Dict) (rest : List Dict) {a : Accepted}
    (ha : a ∈ (k.next py record rest).entries) : a ∈ k.entries ∨
      ∃ x, clientIdOf py record = some x ∧ a = ⟨k.tenant, x, record, k.now⟩ := by
  rcases List.mem_append.1 ha with ha | ha
  · exact Or.inl ha
  · cases hx : clientIdOf py record with
    | none =>
      rw [hx] at ha
      cases ha
    | some x => simp_all

theorem mem_entries_next (rest : List Dict) (hx : clientIdOf py record = some x) :
    (⟨k.tenant, x, record, k.now⟩ : Accepted) ∈ (k.next py record rest).entries := by
  refine List.mem_append_right _ ?_
  rw [hx]
  exact List.mem_singleton.2 rfl

theorem CallOk.next {k : Call} (h : CallOk py svc s k) (record : Dict) (rest : List Dict)
    (hstored : ∀ x, clientIdOf py record = some x →
      ∃ r ∈ s.rows ++ mine k.n s.pending, r.key = some (k.tenant, x)) :
    CallOk py svc s (k.next py record rest) where
  lt := h.lt
  unsettled := h.unsettled
  noRows := h.noRows
  count := h.count
  tenants := h.tenants
  entriesTenant a ha := by
    rcases entries_next k record rest ha with ha | ⟨x, -, rfl⟩
    · exact h.entriesTenant a ha
    · rfl
  existing := h.existing
  seen x hx := by
    obtain ⟨a, ha, hax⟩ := h.seen x hx
    exact ⟨a, List.mem_append_left _ ha, hax⟩
  stored a ha := by
    rcases entries_next k record rest ha with ha | ⟨x, hx, rfl⟩
    · exact h.stored a ha
    · exact hstored x hx
  first r hr y hy := by
    obtain ⟨a, ha, hgives⟩ := h.first r hr y hy
    exact ⟨a, by rw [Call.next, List.find?_append, ha]; rfl, hgives⟩
  acked x hx := by
    rcases List.mem_append.1 hx with hx | hx
    · obtain ⟨a, ha, hax⟩ := h.acked x hx
      exact ⟨a, List.mem_append_left _ ha, hax⟩
    · exact ⟨_, mem_entries_next rest (List.mem_singleton.1 hx).symm, rfl⟩

theorem CallOk.take (h : CallOk py svc s k) (record : Dict) (rest : List Dict)
    (hstored : ∀ x, clientIdOf py record = some x →
      ∃ r ∈ s.rows ++ mine k.n s.pending, r.key = some (k.tenant, x)) :
    CallOk py svc s (k.take py record rest) := by
  have hn := h.next record rest hstored
  refine ⟨hn.lt, hn.unsettled, hn.noRows, hn.count, hn.tenants, hn.entriesTenant, hn.existing,
    fun x hx => ?_, hn.stored, hn.first, hn.acked⟩
  rcases List.mem_append.1 hx with hx | hx
  · exact hn.seen x hx
  · exact ⟨_, mem_entries_next rest (Option.mem_toList.1 hx), rfl⟩

theorem CallOk.duplicate (h : CallOk py svc s k)
    (hx : clientIdOf py record = some x) (hdup : k.duplicate py record = true) :
    ∃ r ∈ s.rows ++ mine k.n s.pending, r.key = some (k.tenant, x) := by
  unfold Call.duplicate at hdup
  rw [hx, Option.any_some, Bool.or_eq_true, List.contains_iff_mem, List.contains_iff_mem] at hdup
  rcases hdup with hdup | hdup
  · obtain ⟨r, hr, hk⟩ := h.existing x hdup
    exact ⟨r, List.mem_append_left _ hr, hk⟩
  · obtain ⟨a, ha, rfl⟩ := h.seen x hdup
    obtain ⟨r, hr, hk⟩ := h.stored a ha
    exact ⟨r, hr, hk.trans (by rw [Accepted.key, h.entriesTenant a ha])⟩

theorem key_eq_some {d : Decision} {t : String} :
    d.key = some (t, x) ↔ d.tenantId = t ∧ d.clientId = some x := by
  unfold Decision.key
  cases d.clientId with
  | none => simp
  | some y => simp

/-! ### Steps -/

theorem Inv.begin (h : Inv py svc s) (tenant : String) (batch : List Dict) :
    Inv py svc ({ s with nextCall := s.nextCall + 1 }.go c (.started s.nextCall tenant batch)) := by
  have hs := h.sound
  have hnone : ∀ rows : List Stored, (∀ r ∈ rows, r ∈ s.rows ++ s.pending) →
      mine s.nextCall rows = [] := by
    intro rows hsub
    refine List.filter_eq_nil_iff.2 fun r hr hn => ?_
    exact Nat.ne_of_lt (hs.bound r (hsub r hr)) (of_decide_eq_true hn)
  refine h.act (t := { s with nextCall := s.nextCall + 1 }) (n := s.nextCall)
    ⟨rfl, Nat.le_succ _, fun _ _ hm => hm, fun _ hr => hr, fun _ _ => rfl, fun _ _ => rfl,
      fun _ ha => ha⟩ (fun d _ hd => ?_) (fun m hm => (Option.some.inj hm).symm)
    ⟨Nat.lt_succ_self _, fun hm => Nat.lt_irrefl _ (hs.boundSettled _ hm),
      hnone s.rows fun _ hr => List.mem_append_left _ hr,
      hnone s.pending fun _ hr => List.mem_append_right _ hr⟩
    ⟨fun r hr => Nat.lt_succ_of_lt (hs.bound r hr),
      fun n hn => Nat.lt_succ_of_lt (hs.boundSettled n hn), hs.keys, hs.first, hs.stored, hs.acked,
      hs.metered⟩
  exact Nat.lt_irrefl _ (h.call_lt hd)

theorem Inv.select (h : Inv py svc s) {batch : List Dict}
    (hc : s.process c = .started n tenant batch) (clientIds : List String) :
    Inv py svc (s.go c (.ingesting ⟨n, tenant, s.rows.filterMap fun r =>
      r.decision.clientId.filter fun x => r.decision.tenantId = tenant ∧ x ∈ clientIds,
      [], batch, [], [], 0, s.now⟩)) := by
  have hp := h.phase c
  rw [hc] at hp
  obtain ⟨hlt, hs, hr, hpending⟩ := hp
  refine h.move (by rw [hc]; rfl) (fun m hm => (Option.some.inj hm).symm) ⟨hlt, hs, hr, ?_, ?_,
    nofun, fun x hx => ?_, nofun, nofun, ?_, nofun⟩
  · exact congrArg List.length hpending
  · rw [hpending]
    exact nofun
  · obtain ⟨r, hr, hx⟩ := List.mem_filterMap.1 hx
    obtain ⟨hx, hcond⟩ := Option.filter_eq_some_iff.1 hx
    exact ⟨r, hr, key_eq_some.2 ⟨(of_decide_eq_true hcond).1, hx⟩⟩
  · rw [hpending]
    exact nofun

theorem Inv.abort (h : Inv py svc s) (hc : (s.process c).call = some n) :
    Inv py svc (s.abort c n) := by
  have hs := h.sound
  have hsub : (s.rows ++ Ingest.others n s.pending).Sublist (s.rows ++ s.pending) :=
    List.Sublist.append_left List.filter_sublist _
  refine h.act (t := { s with pending := Ingest.others n s.pending }) (n := n)
    ⟨rfl, Nat.le_refl _, fun _ _ hm => hm, fun _ hr => hr, fun _ _ => rfl,
      fun m hm => mine_others_of_ne hm _, fun _ ha => ha⟩ (h.others hc) (fun _ => nofun) trivial
    ⟨fun r hr => hs.bound r (hsub.subset hr), hs.boundSettled,
      hs.keys.sublist (hsub.filterMap _), hs.first, hs.stored, hs.acked, hs.metered⟩

theorem CallOk.insert (h : CallOk py svc s k)
    {rest : List Dict} {uuid : String} {salt : ℕ} {d : Decision}
    (hd : decisionOf py svc uuid salt k.tenant record k.now = .ok d)
    (hfree : ∀ r ∈ s.rows ++ s.pending, r.key.isSome → r.key ≠ d.key) :
    CallOk py svc { s with pending := s.pending ++ [⟨k.n, d⟩] }
      { k.take py record rest with inserted := k.inserted + 1 } := by
  obtain ⟨htenant, hclient, -⟩ := decisionOf_eq_ok py svc hd
  have hmine : mine k.n (s.pending ++ [⟨k.n, d⟩]) = mine k.n s.pending ++ [⟨k.n, d⟩] := by
    rw [mine_append]
    congr 1
    simp [mine]
  have hkey : ∀ x, clientIdOf py record = some x → d.key = some (k.tenant, x) :=
    fun x hx => key_eq_some.2 ⟨htenant, hclient.trans hx⟩
  -- nothing of the call has the key yet
  have hnew : ∀ x, clientIdOf py record = some x → ∀ a ∈ k.entries, a.key ≠ (k.tenant, x) := by
    intro x hx a ha hax
    obtain ⟨r, hr, hrk⟩ := h.stored a ha
    refine hfree r ?_ (by rw [hrk]; rfl) (by rw [hrk, hax, hkey x hx])
    rcases List.mem_append.1 hr with hr | hr
    · exact List.mem_append_left _ hr
    · exact List.mem_append_right _ (mem_mine.1 hr).1
  refine ⟨h.lt, h.unsettled, h.noRows, ?_, fun r hr => ?_, fun a ha => ?_, h.existing,
    fun x hx => ?_, fun a ha => ?_, fun r hr y hy => ?_, fun x hx => ?_⟩
  · show (mine k.n (s.pending ++ [⟨k.n, d⟩])).length = k.inserted + 1
    rw [hmine, List.length_append, h.count]
    rfl
  · rcases List.mem_append.1 (hmine ▸ hr) with hr | hr
    · exact h.tenants r hr
    · rw [List.mem_singleton.1 hr]
      exact htenant
  · rcases entries_next k record rest ha with ha | ⟨x, -, rfl⟩
    · exact h.entriesTenant a ha
    · rfl
  · rcases List.mem_append.1 hx with hx | hx
    · obtain ⟨a, ha, hax⟩ := h.seen x hx
      exact ⟨a, List.mem_append_left _ ha, hax⟩
    · exact ⟨_, mem_entries_next rest (Option.mem_toList.1 hx), rfl⟩
  · rcases entries_next k record rest ha with ha | ⟨x, hx, rfl⟩
    · obtain ⟨r, hr, hrk⟩ := h.stored a ha
      refine ⟨r, ?_, hrk⟩
      rcases List.mem_append.1 hr with hr | hr
      · exact List.mem_append_left _ hr
      · refine List.mem_append_right _ ?_
        show r ∈ mine k.n (s.pending ++ [⟨k.n, d⟩])
        exact hmine ▸ List.mem_append_left _ hr
    · refine ⟨⟨k.n, d⟩, List.mem_append_right _ ?_, hkey x hx⟩
      show _ ∈ mine k.n (s.pending ++ [⟨k.n, d⟩])
      simp_all
  · show ∃ a, (k.next py record rest).entries.find? _ = some a ∧ _
    rcases List.mem_append.1 (hmine ▸ hr) with hr | hr
    · obtain ⟨a, ha, hgives⟩ := h.first r hr y hy
      exact ⟨a, by rw [Call.next, List.find?_append, ha]; rfl, hgives⟩
    · rw [List.mem_singleton.1 hr] at hy ⊢
      cases hx : clientIdOf py record with
      | none =>
        have hnone : d.key = none := by
          rw [Decision.key, hclient, hx]
          rfl
        rw [show d.key = some y from hy] at hnone
        cases hnone
      | some x =>
        have hxy : y = (k.tenant, x) := Option.some.inj (hy.symm.trans (hkey x hx))
        have hnone : k.entries.find? (fun a => a.key = y) = none :=
          List.find?_eq_none.2 fun a ha => by simpa [hxy] using hnew x hx a ha
        refine ⟨⟨k.tenant, x, record, k.now⟩, ?_, uuid, salt, hd⟩
        rw [Call.next, List.find?_append, hnone, hx]
        simp [Accepted.key, hxy]
  · rcases List.mem_append.1 hx with hx | hx
    · obtain ⟨a, ha, hax⟩ := h.acked x hx
      exact ⟨a, List.mem_append_left _ ha, hax⟩
    · exact ⟨_, mem_entries_next rest (List.mem_singleton.1 hx).symm, rfl⟩

theorem Inv.insert (h : Inv py svc s) {c : ℕ} {k : Call} {record : Dict} {rest : List Dict}
    {uuid : String} {salt : ℕ} {d : Decision} (hc : s.process c = .ingesting k)
    (htodo : k.todo = record :: rest) (hdup : k.duplicate py record = false)
    (hd : decisionOf py svc uuid salt k.tenant record k.now = .ok d)
    (hok : Clean py s (.handle c uuid salt))
    (hs : s.insert c (k.take py record rest) d = some s') : Inv py svc s' := by
  have hk : CallOk py svc s k := by
    have hp := h.phase c
    rw [hc] at hp
    exact hp
  have hcall : (s.process c).call = some k.n := by rw [hc]; rfl
  obtain ⟨htenant, hclient, hid, houtcome, hsource, -⟩ := decisionOf_eq_ok py svc hd
  have hkey : ∀ x, clientIdOf py record = some x → d.key = some (k.tenant, x) :=
    fun x hx => key_eq_some.2 ⟨htenant, hclient.trans hx⟩
  have hskip : (∀ x, clientIdOf py record = some x →
      ∃ r ∈ s.rows ++ mine k.n s.pending, r.key = some (k.tenant, x)) →
      Inv py svc (s.go c (.ingesting (k.take py record rest))) := fun hstored =>
    h.move hcall (fun m hm => (Option.some.inj hm).symm) (hk.take record rest hstored)
  unfold State.insert at hs
  split at hs
  · rename_i hnull
    cases hs
    refine hskip fun x hx => ?_
    by_contra hnone
    obtain ⟨ho, hsrc, -⟩ := hok k record rest x hc htodo hx hdup fun r hr hrk =>
      hnone ⟨r, List.mem_append_left _ hr, hrk⟩
    rw [houtcome, hsource, ho, hsrc] at hnull
    cases hnull
  · split at hs
    · cases hs
    · rename_i hblocked
      split at hs
      · rename_i htaken
        cases hs
        refine hskip fun x hx => ?_
        by_contra hnone
        obtain ⟨-, -, hfresh⟩ := hok k record rest x hc htodo hx hdup fun r hr hrk =>
          hnone ⟨r, List.mem_append_left _ hr, hrk⟩
        obtain ⟨r, hr, hrk⟩ := List.any_eq_true.1 htaken
        have hrk : r.key = some (k.tenant, x) := by
          have hne : r.decision.id ≠ d.id := hid ▸ hfresh r hr
          have hsame : r.key.isSome = true ∧ r.key = d.key := by simpa [hne] using hrk
          exact hsame.2.trans (hkey x hx)
        rcases List.mem_append.1 hr with hr | hr
        · exact hnone ⟨r, List.mem_append_left _ hr, hrk⟩
        · by_cases hn : r.call = k.n
          · exact hnone ⟨r, List.mem_append_right _ (mem_mine.2 ⟨hr, hn⟩), hrk⟩
          -- the key of another transaction: the insert waits
          · refine hblocked (List.any_eq_true.2 ⟨r, mem_others.2 ⟨hr, hn⟩, ?_⟩)
            rw [hrk, hkey x hx]
            simp
      · rename_i hfree
        cases hs
        have hfree : ∀ r ∈ s.rows ++ s.pending, r.key.isSome → r.key ≠ d.key := by
          intro r hr hsome hrk
          refine hfree (List.any_eq_true.2 ⟨r, hr, ?_⟩)
          rw [hrk] at hsome
          simp [hrk, hsome]
        have hsd := h.sound
        have hassoc : s.rows ++ (s.pending ++ [⟨k.n, d⟩]) = (s.rows ++ s.pending) ++ [⟨k.n, d⟩] :=
          (List.append_assoc ..).symm
        refine h.act (t := { s with pending := s.pending ++ [Stored.mk k.n d] }) (n := k.n)
          ⟨rfl, Nat.le_refl _, fun _ _ hm => hm, fun _ hr => hr, fun _ _ => rfl, fun m hm => ?_,
            fun _ ha => ha⟩ (h.others hcall) (fun m hm => (Option.some.inj hm).symm)
          (hk.insert hd hfree)
          ⟨fun r hr => ?_, hsd.boundSettled, ?_, hsd.first, hsd.stored, hsd.acked, hsd.metered⟩
        · show mine m (s.pending ++ [⟨k.n, d⟩]) = _
          rw [mine_append]
          simp [mine, Ne.symm hm]
        · have hr : r ∈ (s.rows ++ s.pending) ++ [⟨k.n, d⟩] := hassoc ▸ hr
          rcases List.mem_append.1 hr with hr | hr
          · exact hsd.bound r hr
          · rw [List.mem_singleton.1 hr]
            exact hk.lt
        · show ((s.rows ++ (s.pending ++ [Stored.mk k.n d])).filterMap Stored.key).Nodup
          rw [hassoc, List.filterMap_append]
          refine List.Nodup.append hsd.keys ?_ ?_
          · cases hdk : d.key with
            | none => simp [Stored.key, hdk]
            | some y => simp [Stored.key, hdk]
          · intro y hy hy'
            obtain ⟨r, hr, hry⟩ := List.mem_filterMap.1 hy
            obtain ⟨r', hr', hry'⟩ := List.mem_filterMap.1 hy'
            rw [List.mem_singleton.1 hr'] at hry'
            exact hfree r hr (by rw [hry]; rfl) (hry.trans hry'.symm)

theorem Inv.commit (h : Inv py svc s) (hc : s.process c = .ingesting k) :
    Inv py svc ({ s with
      rows := s.rows ++ mine k.n s.pending
      pending := Ingest.others k.n s.pending
      accepted := s.accepted ++ k.entries }.go c (.committed k.n k.tenant k.acked k.inserted)) := by
  have hk : CallOk py svc s k := by
    have hp := h.phase c
    rw [hc] at hp
    exact hp
  have hs := h.sound
  have hcall : (s.process c).call = some k.n := by rw [hc]; rfl
  have hperm : ((s.rows ++ mine k.n s.pending) ++ Ingest.others k.n s.pending).Perm
      (s.rows ++ s.pending) := by
    rw [List.append_assoc]
    exact (mine_others_perm k.n s.pending).append_left _
  have hmine : mine k.n (s.rows ++ mine k.n s.pending) = mine k.n s.pending := by
    rw [mine_append, hk.noRows, mine_mine]
    rfl
  refine h.act (t := { s with
      rows := s.rows ++ mine k.n s.pending
      pending := Ingest.others k.n s.pending
      accepted := s.accepted ++ k.entries }) (n := k.n)
    ⟨rfl, Nat.le_refl _, fun _ _ hm => hm, fun _ hr => List.mem_append_left _ hr,
      fun m hm => ?_, fun m hm => mine_others_of_ne hm _, fun _ ha => List.mem_append_left _ ha⟩
    (h.others hcall) (fun m hm => (Option.some.inj hm).symm)
    ⟨hk.lt, hk.unsettled, ?_, fun r hr => hk.tenants r (hmine ▸ hr), fun x hx => ?_⟩
    ⟨fun r hr => hs.bound r (hperm.subset hr), hs.boundSettled,
      (hperm.filterMap _).nodup_iff.2 hs.keys, fun r hr y hy => ?_, fun a ha => ?_,
      fun t x hx => ?_, fun t => ?_⟩
  · simp_all [mine_append, mine_mine_of_ne]
  · show (mine k.n (s.rows ++ mine k.n s.pending)).length = k.inserted
    rw [hmine]
    exact hk.count
  · obtain ⟨a, ha, rfl⟩ := hk.acked x hx
    exact ⟨a, List.mem_append_right _ ha, by rw [Accepted.key, hk.entriesTenant a ha]⟩
  · show ∃ a, (s.accepted ++ k.entries).find? _ = some a ∧ _
    rcases List.mem_append.1 hr with hr | hr
    · obtain ⟨a, ha, hgives⟩ := hs.first r hr y hy
      exact ⟨a, by rw [List.find?_append, ha]; rfl, hgives⟩
    -- the key is not among those accepted before: it would have a row already
    · have hnone : s.accepted.find? (fun a => a.key = y) = none := by
        refine List.find?_eq_none.2 fun a ha hay => ?_
        obtain ⟨r', hr', hk'⟩ := hs.stored a ha
        have hdisjoint := List.nodup_append.1 (List.filterMap_append ▸ hs.keys)
        refine hdisjoint.2.2 y (List.mem_filterMap.2 ⟨r', hr', ?_⟩) y
          (List.mem_filterMap.2 ⟨r, (mem_mine.1 hr).1, hy⟩) rfl
        rw [hk', of_decide_eq_true hay]
      obtain ⟨a, ha, hgives⟩ := hk.first r hr y hy
      grind
  · rcases List.mem_append.1 ha with ha | ha
    · obtain ⟨r, hr, hrk⟩ := hs.stored a ha
      exact ⟨r, List.mem_append_left _ hr, hrk⟩
    · exact hk.stored a ha
  · obtain ⟨a, ha, hax⟩ := hs.acked t x hx
    exact ⟨a, List.mem_append_left _ ha, hax⟩
  · show s.metered t = (s.rows ++ mine k.n s.pending).countP _
    rw [List.countP_append, hs.metered t]
    have hnone : (mine k.n s.pending).countP
        (fun r => r.decision.tenantId = t ∧ r.call ∈ s.settled) = 0 := by
      refine List.countP_eq_zero.2 fun r hr => ?_
      have hn := (mem_mine.1 hr).2
      simp [hn, hk.unsettled]
    exact (Nat.add_eq_left.2 hnone).symm

theorem countP_settled {settled : List ℕ}
    (hn : n ∉ settled) (htenant : ∀ r ∈ mine n rows, r.decision.tenantId = tenant) (t : String) :
    rows.countP (fun r => r.decision.tenantId = t ∧ r.call ∈ n :: settled) =
      rows.countP (fun r => r.decision.tenantId = t ∧ r.call ∈ settled) +
        if t = tenant then (mine n rows).length else 0 := by
  induction rows with
  | nil => simp [mine]
  | cons r rows ih =>
    have hrest : ∀ r ∈ mine n rows, r.decision.tenantId = tenant := fun q hq =>
      htenant q (mem_mine.2 ⟨List.mem_cons_of_mem _ (mem_mine.1 hq).1, (mem_mine.1 hq).2⟩)
    have ih := ih hrest
    by_cases hr : r.call = n
    · have ht := htenant r (mem_mine.2 ⟨List.mem_cons_self, hr⟩)
      have hmine : mine n (r :: rows) = r :: mine n rows := by simp [mine, hr]
      rw [List.countP_cons, List.countP_cons, ih, hmine]
      by_cases htt : t = tenant
      · subst htt
        simp [hr, ht, hn]
        omega
      · simp [hr, ht, htt, Ne.symm htt, hn]
    grind [mine]

theorem Inv.settle (h : Inv py svc s) {inserted : ℕ}
    {acked : List (Option String)} (hc : s.process c = .committed n tenant acked inserted)
    {metered : String → ℕ} (hmetered : ∀ t, metered t =
      s.metered t + if t = tenant then inserted else 0)
    {all : List (String × Option String)}
    (hall : ∀ p ∈ all, p ∈ s.acked ++ acked.map (tenant, ·)) :
    Inv py svc ({ s with metered := metered, settled := n :: s.settled, acked := all }.go c
      .idle) := by
  obtain ⟨hlt, hn, hcount, htenant, hacked⟩ : PhaseOk py svc s (.committed n tenant acked inserted) :=
    hc ▸ h.phase c
  have hs := h.sound
  refine h.act (t := { s with metered := metered, settled := n :: s.settled, acked := all })
    ⟨rfl, Nat.le_refl _, fun m hm hmem => (List.mem_cons.1 hmem).resolve_left hm, fun _ hr => hr,
      fun _ _ => rfl, fun _ _ => rfl, fun _ ha => ha⟩ (h.others (by rw [hc]; rfl)) (fun _ => nofun)
    trivial ⟨hs.bound, fun m hm => ?_, hs.keys, hs.first, hs.stored, fun t x hx => ?_, fun t => ?_⟩
  · rcases List.mem_cons.1 hm with rfl | hm
    · exact hlt
    · exact hs.boundSettled m hm
  · rcases List.mem_append.1 (hall _ hx) with hx | hx
    · exact hs.acked t x hx
    · obtain ⟨o, ho, heq⟩ := List.mem_map.1 hx
      cases heq
      exact hacked x ho
  · show metered t = _
    rw [hmetered, hs.metered t, countP_settled hn htenant t, hcount]

theorem Inv.step (h : Inv py svc s) {a : Act} (hok : Clean py s a)
    (hs : step py svc s a = some s') : Inv py svc s' := by
  cases a with
  | wait duration =>
    cases hs
    refine ⟨h.alone, fun c => ?_, ⟨h.sound.bound, h.sound.boundSettled, h.sound.keys,
      h.sound.first, h.sound.stored, h.sound.acked, h.sound.metered⟩⟩
    exact (h.phase c).kept ⟨rfl, Nat.le_refl _, fun _ _ hm => hm, fun _ hr => hr, fun _ _ => rfl,
      fun _ _ => rfl, fun _ ha => ha⟩ fun hn => Nat.lt_irrefl _ (h.call_lt hn)
  | begin c tenant batch =>
    simp only [Ingest.step] at hs
    split at hs
    · rename_i hidle
      cases hs
      exact h.begin tenant batch
    · cases hs
  | select c =>
    simp only [Ingest.step] at hs
    split at hs
    · rename_i hc
      cases hs
      exact h.select hc _
    · cases hs
  | handle c uuid salt =>
    simp only [Ingest.step] at hs
    split at hs
    · rename_i k hc
      have hk : CallOk py svc s k := by
        have hp := h.phase c
        rw [hc] at hp
        exact hp
      have hcall : (s.process c).call = some k.n := by rw [hc]; rfl
      split at hs
      · rename_i record rest htodo
        split at hs
        · rename_i hdup
          cases hs
          exact h.move hcall (fun m hm => (Option.some.inj hm).symm)
            (hk.next record rest fun x hx => hk.duplicate hx hdup)
        · rename_i hdup
          split at hs
          · cases hs
            exact h.abort hcall
          · rename_i d hd
            split at hs
            · exact h.insert hc htodo (Bool.eq_false_iff.2 hdup) hd hok hs
            · cases hs
              exact h.abort hcall
      · cases hs
    · cases hs
  | commit c =>
    simp only [Ingest.step] at hs
    split at hs
    · rename_i hc
      split at hs
      · cases hs
        exact h.commit hc
      · cases hs
    · cases hs
  | abort c =>
    simp only [Ingest.step] at hs
    split at hs
    · rename_i hc
      cases hs
      exact h.move (by rw [hc]; rfl) (fun _ => nofun) trivial
    · rename_i hc
      cases hs
      exact h.abort (by rw [hc]; rfl)
    · cases hs
  | meter c =>
    simp only [Ingest.step] at hs
    split at hs
    · rename_i n tenant acked inserted hc
      cases hs
      refine h.settle hc (fun t => ?_) fun _ hp => hp
      grind
    · cases hs
  | meterFails c =>
    simp only [Ingest.step] at hs
    split at hs
    · rename_i n tenant acked inserted hc
      cases hs
      refine h.settle hc (fun t => ?_) fun _ hp => hp
      rw [hok n tenant acked inserted hc, ite_self]
      rfl
    · cases hs
  | crash c =>
    simp only [Ingest.step] at hs
    split at hs
    · rename_i n tenant acked inserted hc
      cases hs
      refine h.settle hc (fun t => ?_) fun _ hp => List.mem_append_left _ hp
      rw [hok n tenant acked inserted hc, ite_self]
      rfl
    · cases hs

theorem filter_key {y : String × String}
    (hkeys : (rows.filterMap Stored.key).Nodup) (hr : r ∈ rows) (hy : r.key = some y) :
    (rows.filter fun r => r.key = some y) = [r] := by
  induction rows with
  | nil => cases hr
  | cons q rows ih =>
    have hrest : (rows.filterMap Stored.key).Nodup :=
      hkeys.sublist ((List.sublist_cons_self q rows).filterMap _)
    by_cases hq : q.key = some y
    · have hnone : ∀ q' ∈ rows, q'.key ≠ some y := by
        intro q' hq' hy'
        rw [List.filterMap_cons_some hq] at hkeys
        exact (List.nodup_cons.1 hkeys).1 (List.mem_filterMap.2 ⟨q', hq', hy'⟩)
      have hqr : q = r := by
        rcases List.mem_cons.1 hr with hr | hr
        · exact hr.symm
        · exact absurd hy (hnone r hr)
      simp_all
    · grind

theorem ingested_once (h : Reach (step py svc) (Clean py) State.init s) : ExactlyOnce py svc s := by
  have hs : Sound py svc s :=
    (h.invariant inv_init fun _ _ _ hi hok hs => hi.step hok hs : Inv py svc s).sound
  refine ⟨fun t x hx => ?_, hs.metered⟩
  obtain ⟨a, ha, hax⟩ := hs.acked t x hx
  obtain ⟨r, hr, hrk⟩ := hs.stored a ha
  rw [hax] at hrk
  obtain ⟨a₀, ha₀, hgives⟩ := hs.first r hr _ hrk
  have hkeys : (s.rows.filterMap Stored.key).Nodup :=
    hs.keys.sublist ((List.sublist_append_left _ _).filterMap _)
  exact ⟨r, a₀, filter_key hkeys hr hrk, ha₀, hgives⟩

end Ingest

/-! ### Runs -/

/-- A server that stores in plain text, and records without times. -/
def plainServices : Services where
  fromIsoFormat _ := none
  payloadHash _ := "44136fa355b3678a1146ad16f7e8649e"
  encrypt _ _ v := v
  binds _ := true

def approved : Dict := [("id", .str "a"), ("outcome", .str "approve")]

def undecided : Dict := [("id", .str "a"), ("outcome", .null)]

def batchRun (record : Dict) : List Act :=
  [.begin 0 "acme" [record], .select 0, .handle 0 "7c9e6679" 0, .commit 0, .meter 0]

theorem approved_ingested : ∃ s,
    Reach (step asciiText plainServices) (Clean asciiText) State.init s ∧
      (∃ r a, (s.rows.filter fun r => r.key = some ("acme", "a")) = [r] ∧
        s.accepted.find? (fun a => a.key = ("acme", "a")) = some a ∧
        a.Gives asciiText plainServices r.decision) ∧
      s.metered "acme" = s.rows.countP fun r =>
        r.decision.tenantId = "acme" ∧ r.call ∈ s.settled := by
  have halong : Along (step asciiText plainServices) (Clean asciiText) State.init
      (batchRun approved) := by
    refine .cons trivial rfl (.cons trivial rfl (.cons (fun k record rest x hc htodo _ _ _ => ?_)
      rfl (.cons trivial rfl (.cons trivial rfl trivial))))
    cases hc
    cases htodo
    exact ⟨rfl, rfl, nofun⟩
  have hreach : Reach (step asciiText plainServices) (Clean asciiText) State.init _ :=
    reach_exec (show exec (step asciiText plainServices) State.init (batchRun approved) = some _
      from rfl) halong
  exact ⟨_, hreach, (ingested_once hreach).one "acme" "a" (List.mem_singleton.2 rfl),
    (ingested_once hreach).metered "acme"⟩

/-- The outcome null is no outcome of a row, and the insert is taken for a duplicate. -/
theorem null_outcome_lost : ∃ s, Reachable (step asciiText plainServices) State.init s ∧
    ¬ ExactlyOnce asciiText plainServices s := by
  refine ⟨_, reachable_exec (show exec (step asciiText plainServices) State.init
    (batchRun undecided) = some _ from rfl), fun h => ?_⟩
  obtain ⟨r, a, hr, -⟩ := h.one "acme" "a" (List.mem_singleton.2 rfl)
  cases hr

end RuleMind.Ingest
