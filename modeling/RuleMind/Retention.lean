/-
  Retention: `archive_and_purge_decisions` of `app/storage.py`, the record of a row that it
  archives (`_decision_to_dict`, with the lenient decryption), and the sinks of
  `app/archiver.py`.

  A pass reads a batch of old rows, hands their records to the sink, and deletes the rows, in
  three steps; rows are inserted and keys are changed in between, and several passes interleave.
  Of a record that a sink takes there is the dictionary; an object of the s3 sink replaces one of
  the same name.
-/
import RuleMind.DeviceIngest
import RuleMind.Lib.Raises

namespace RuleMind.Retention

open Lib Ingest

/-! ### Reading a row -/

/-- What reading a row takes from elsewhere; `K` stands for the keys configured. -/
structure Reader (K : Type) where
  /-- `crypto().decrypt`; nothing for an `InvalidToken`. -/
  decrypt : K → String → Option String
  /-- `json.loads`; nothing for a `ValueError`. -/
  loads : String → Option Value
  /-- `datetime.isoformat`. -/
  isoformat : ℤ → String

inductive ReadError
  | decryption
  | value
  deriving DecidableEq

def looksEncrypted (text : String) : Bool := "gAAAAA".toList.isPrefixOf text.toList

section Reading
variable {K : Type} (rd : Reader K) (keys : K)

def decryptDecisionField : Value → Except ReadError Value
  | .str s =>
    if looksEncrypted s then
      match rd.decrypt keys s with
      | none => .error .decryption
      | some text => match rd.loads text with
        | some v => .ok v
        | none => .error .value
    -- a row from before the encryption
    else .ok ((rd.loads s).getD (.str s))
  | v => .ok v

def decryptDecisionFieldLenient (value empty : Value) : Except ReadError Value :=
  match decryptDecisionField rd keys value with
  | .error .decryption => .ok empty
  | result => result

def decisionFieldIsUndecryptable (value : Value) : Except ReadError Bool :=
  match decryptDecisionField rd keys value with
  | .ok _ => .ok false
  | .error .decryption => .ok true
  | .error .value => .error .value

/-- `serialize_datetime`: without the microseconds. -/
def serializeDatetime (t : ℤ) : Value := .str (rd.isoformat (t - t % 10 ^ 6) ++ "Z")

/-- An encrypted column: how the record names it, what is stored, what stands for nothing, and
    whether the record has that for every value that is false. -/
structure Column where
  name : String
  stored : Value
  empty : Value
  guarded : Bool

def encryptedColumns (d : Decision) : List Column :=
  [⟨"payload", d.payloadPreview, .dict [], true⟩,
    ⟨"computed_variables", d.computedVariables, .dict [], true⟩,
    ⟨"rule_results", d.ruleResults, .list [], true⟩,
    ⟨"scorecard_result", d.scorecardResult, .null, false⟩, ⟨"trace", d.trace, .list [], true⟩]

def plainColumns (d : Decision) : Dict :=
  [("id", .str d.id), ("client_id", (d.clientId.map Value.str).getD .null), ("user_id", d.userId),
    ("policy_id", d.policyId), ("payload_hash", .str d.payloadHash), ("outcome", d.outcome),
    ("latency_ms", .int d.latencyMs), ("source", d.source), ("sdk_version", d.sdkVersion),
    ("experiment_id", d.experimentId), ("experiment_variant", d.experimentVariant),
    ("device_id", d.deviceId), ("bundle_hash", d.bundleHash), ("tenant_id", .str d.tenantId)]

def readColumn (column : Column) : Except ReadError (String × Value) := do
  let v ← decryptDecisionFieldLenient rd keys column.stored column.empty
  pure (column.name, if column.guarded then Value.orElse (some v) column.empty else v)

/-- `_decision_to_dict`, and the tenant; the order of the entries is another. -/
def decisionToDict (d : Decision) : Except ReadError Dict := do
  let undecryptable ← (encryptedColumns d).mapM fun column =>
    decisionFieldIsUndecryptable rd keys column.stored
  let encrypted ← (encryptedColumns d).mapM (readColumn rd keys)
  pure (("undecryptable", .bool (undecryptable.any id)) ::
    ("created_at", serializeDatetime rd d.createdAt) ::
    ("received_at", serializeDatetime rd d.receivedAt) :: (plainColumns d ++ encrypted))

/-! ### What a record keeps -/

/-- The record has every column: the encrypted ones as they read with some keys, the times to
    the microsecond. -/
structure Recovers (record : Dict) (d : Decision) : Prop where
  encrypted : ∀ column ∈ encryptedColumns d, ∃ keys v,
    record.lookup column.name = some v ∧ decryptDecisionField rd keys column.stored = .ok v
  plain : ∀ p ∈ plainColumns d, record.lookup p.1 = some p.2
  created : record.lookup "created_at" = some (.str (rd.isoformat d.createdAt ++ "Z"))
  received : record.lookup "received_at" = some (.str (rd.isoformat d.receivedAt ++ "Z"))

/-- The row reads in full with the keys, and has times in whole seconds. -/
structure Whole (d : Decision) : Prop where
  columns : ∀ column ∈ encryptedColumns d, ∃ v,
    decryptDecisionField rd keys column.stored = .ok v ∧
      (column.guarded = true → v.truthy = true ∨ v = column.empty)
  created : d.createdAt % 10 ^ 6 = 0
  received : d.receivedAt % 10 ^ 6 = 0

end Reading

section Records
variable {K : Type} {rd : Reader K} {keys : K}

theorem readColumn_whole {column : Column} {v : Value}
    (h : decryptDecisionField rd keys column.stored = .ok v)
    (hv : column.guarded = true → v.truthy = true ∨ v = column.empty) :
    readColumn rd keys column = .ok (column.name, v) := by
  have hread : decryptDecisionFieldLenient rd keys column.stored column.empty = .ok v := by
    unfold decryptDecisionFieldLenient
    rw [h]
  unfold readColumn
  rw [hread]
  show Except.ok (column.name, if column.guarded then Value.orElse (some v) column.empty else v) = _
  congr 2
  split
  · rename_i hguarded
    rcases hv hguarded with ht | he
    · exact if_pos ht
    · rw [← he]
      exact ite_self v
  · rfl

theorem readable_whole {value v : Value} (h : decryptDecisionField rd keys value = .ok v) :
    decisionFieldIsUndecryptable rd keys value = .ok false := by
  unfold decisionFieldIsUndecryptable
  rw [h]

theorem serializeDatetime_whole {t : ℤ} (h : t % 10 ^ 6 = 0) :
    serializeDatetime rd t = .str (rd.isoformat t ++ "Z") := by
  unfold serializeDatetime
  rw [h, Int.sub_zero]

theorem decisionToDict_whole {d : Decision} (h : Whole rd keys d) :
    ∃ record, decisionToDict rd keys d = .ok record ∧ Recovers rd record d := by
  obtain ⟨payload, hp, hp'⟩ := h.columns ⟨"payload", d.payloadPreview, .dict [], true⟩
    (by simp [encryptedColumns])
  obtain ⟨variables', hv, hv'⟩ := h.columns
    ⟨"computed_variables", d.computedVariables, .dict [], true⟩ (by simp [encryptedColumns])
  obtain ⟨results, hr, hr'⟩ := h.columns ⟨"rule_results", d.ruleResults, .list [], true⟩
    (by simp [encryptedColumns])
  obtain ⟨scorecard, hsc, hsc'⟩ := h.columns ⟨"scorecard_result", d.scorecardResult, .null, false⟩
    (by simp [encryptedColumns])
  obtain ⟨trace, ht, ht'⟩ := h.columns ⟨"trace", d.trace, .list [], true⟩
    (by simp [encryptedColumns])
  have heq : decisionToDict rd keys d = .ok (("undecryptable", .bool false) ::
      ("created_at", .str (rd.isoformat d.createdAt ++ "Z")) ::
      ("received_at", .str (rd.isoformat d.receivedAt ++ "Z")) :: (plainColumns d ++
        [("payload", payload), ("computed_variables", variables'), ("rule_results", results),
          ("scorecard_result", scorecard), ("trace", trace)])) := by
    unfold decisionToDict encryptedColumns
    simp only [List.mapM_cons, List.mapM_nil, readable_whole hp, readable_whole hv,
      readable_whole hr, readable_whole hsc, readable_whole ht, readColumn_whole hp hp',
      readColumn_whole hv hv', readColumn_whole hr hr', readColumn_whole hsc hsc',
      readColumn_whole ht ht', serializeDatetime_whole h.created,
      serializeDatetime_whole h.received]
    rfl
  refine ⟨_, heq, fun column hcolumn => ?_, fun p hp => ?_, rfl, rfl⟩
  · simp only [encryptedColumns, List.mem_cons, List.not_mem_nil, or_false] at hcolumn
    rcases hcolumn with rfl | rfl | rfl | rfl | rfl
    · exact ⟨keys, payload, rfl, hp⟩
    · exact ⟨keys, variables', rfl, hv⟩
    · exact ⟨keys, results, rfl, hr⟩
    · exact ⟨keys, scorecard, rfl, hsc⟩
    · exact ⟨keys, trace, rfl, ht⟩
  · simp only [plainColumns, List.mem_cons, List.not_mem_nil, or_false] at hp
    rcases hp with rfl | rfl | rfl | rfl | rfl | rfl | rfl | rfl | rfl | rfl | rfl | rfl | rfl | rfl
    all_goals rfl

end Records

/-! ### Passes -/

/-- Where records are archived: nowhere (a name that is none of the known ones), in a list (the
    memory and clickhouse sinks), or in objects with a prefix and an extension. -/
inductive Sink
  | null
  | appending
  | s3 (keyPrefix extension : String)

/-- The text of a record's time; every record has one. -/
def timeText (record : Dict) : String :=
  match record.lookup "created_at" with
  | some (.str s) => s
  | _ => ""

def tenantText (record : Dict) : String :=
  match record.lookup "tenant_id" with
  | some (.str s) => s
  | _ => "unknown"

/-- `[:15]` of the time without its colons and dashes. -/
def firstTs (record : Dict) : String :=
  let text := String.ofList (((timeText record).toList.filter fun c => c ≠ ':' ∧ c ≠ '-').take 15)
  if text = "" then "batch" else text

def objectKey (keyPrefix extension : String) (first : Dict) (count : ℕ) : String :=
  keyPrefix ++ "/" ++ tenantText first ++ "/" ++ firstTs first ++ "-" ++ toString count ++ "." ++
    extension

/-- Where a pass stands: it has read the records of a batch, or written them. -/
inductive Phase
  | idle
  | selected (ids : List String) (records : List Dict)
  | written (ids : List String)

structure State (K : Type) where
  rows : List Decision
  /-- The ids that have been in the table. -/
  used : List String
  keys : K
  appended : List Dict
  objects : List (String × List Dict)
  process : ℕ → Phase
  deleted : List Decision
  /-- The objects that have been replaced. -/
  overwritten : List (String × List Dict)

def State.init {K : Type} (keys : K) (rows : List Decision) : State K :=
  ⟨rows, rows.map Decision.id, keys, [], [], fun _ => .idle, [], []⟩

inductive Act (K : Type)
  | insert (d : Decision)
  | configure (keys : K)
  /-- A pass reads the oldest rows of a tenant from before a time, `chosen` in their order. -/
  | select (c : ℕ) (tenant : String) (olderThan : ℤ) (limit : ℕ) (chosen : List Decision)
  | write (c : ℕ)
  /-- The sink raises, after it may have stored the object. -/
  | fail (c : ℕ) (stored : Bool)
  | delete (c : ℕ)

section Steps
variable {K : Type} (rd : Reader K) (sink : Sink)

def State.go (s : State K) (c : ℕ) (ph : Phase) : State K :=
  { s with process := Function.update s.process c ph }

def State.eligible (s : State K) (tenant : String) (olderThan : ℤ) : List Decision :=
  s.rows.filter fun d => d.tenantId = tenant ∧ d.createdAt < olderThan

def State.Selects (s : State K) (tenant : String) (olderThan : ℤ) (limit : ℕ)
    (chosen : List Decision) : Prop :=
  chosen.Nodup ∧ chosen.length ≤ limit ∧ (∀ d ∈ chosen, d ∈ s.eligible tenant olderThan) ∧
    chosen.Pairwise (fun d e => d.createdAt ≤ e.createdAt) ∧
    ∀ e ∈ s.eligible tenant olderThan,
      e ∈ chosen ∨ chosen.length = limit ∧ ∀ d ∈ chosen, d.createdAt ≤ e.createdAt

instance (s : State K) (tenant : String) (olderThan : ℤ) (limit : ℕ) (chosen : List Decision) :
    Decidable (s.Selects tenant olderThan limit chosen) :=
  inferInstanceAs (Decidable (_ ∧ _ ∧ _ ∧ _ ∧ _))

/-- `put_object`. -/
def State.put (s : State K) (key : String) (records : List Dict) : State K :=
  { s with
    objects := (key, records) :: s.objects.filter fun o => o.1 ≠ key
    overwritten := (s.objects.filter fun o => o.1 = key) ++ s.overwritten }

/-- `archiver.write`; a batch has a first record. -/
def State.archive (s : State K) (records : List Dict) : State K :=
  match sink, records with
  | .appending, _ => { s with appended := s.appended ++ records }
  | .s3 keyPrefix extension, first :: rest =>
    s.put (objectKey keyPrefix extension first (rest.length + 1)) (first :: rest)
  | .null, _ | .s3 _ _, [] => s

def step (s : State K) (a : Act K) : Option (State K) :=
  match a with
  | .insert d =>
    if s.rows.any (·.id = d.id) then none
    else some { s with rows := d :: s.rows, used := d.id :: s.used }
  | .configure keys => some { s with keys := keys }
  | .select c tenant olderThan limit chosen =>
    match s.process c with
    | .idle =>
      if s.Selects tenant olderThan limit chosen then
        match chosen.mapM (decisionToDict rd s.keys) with
        | .ok [] => some s
        | .ok records => some (s.go c (.selected (chosen.map Decision.id) records))
        | .error _ => some s
      else none
    | _ => none
  | .write c =>
    match s.process c with
    | .selected ids records => some ((s.archive sink records).go c (.written ids))
    | _ => none
  | .fail c stored =>
    match s.process c with
    | .selected _ records => some ((if stored then s.archive sink records else s).go c .idle)
    | .written _ => some (s.go c .idle)
    | .idle => none
  | .delete c =>
    match s.process c with
    | .written ids =>
      some ({ s with
        rows := s.rows.filter fun d : Decision => d.id ∉ ids
        deleted := (s.rows.filter fun d : Decision => d.id ∈ ids) ++ s.deleted }.go c .idle)
    | _ => none

def State.archived (s : State K) : List Dict := s.appended ++ s.objects.flatMap Prod.snd

/-- Every row deleted has a record in the archive that it can be recovered from, and no object
    is replaced. -/
def Preserved (s : State K) : Prop :=
  (∀ d ∈ s.deleted, ∃ record ∈ s.archived, Recovers rd record d) ∧ s.overwritten = []

/-- The sink keeps a batch, under a name that is not taken. -/
def State.Room (s : State K) (records : List Dict) : Prop :=
  match sink, records with
  | .null, _ => False
  | .appending, _ => True
  | .s3 _ _, [] => True
  | .s3 keyPrefix extension, first :: rest =>
    ∀ o ∈ s.objects, o.1 ≠ objectKey keyPrefix extension first (rest.length + 1)

/-- The ids of new rows are new, a row selected reads in full, and the sink keeps what it is
    given. -/
def Kept (s : State K) : Act K → Prop
  | .insert d => d.id ∉ s.used
  | .select _ _ _ _ chosen => ∀ d ∈ chosen, Whole rd s.keys d
  | .write c => ∀ ids records, s.process c = .selected ids records → s.Room sink records
  | .fail c stored => ∀ ids records, s.process c = .selected ids records → stored = true →
      s.Room sink records
  | _ => True

end Steps

/-! ### Nothing is lost -/

section Preserving
variable {K : Type} {rd : Reader K} {sink : Sink} {s s' t : State K}

@[simp] theorem go_process (s : State K) (c : ℕ) (ph : Phase) (d : ℕ) :
    (s.go c ph).process d = if d = c then ph else s.process d := by
  simp [State.go, Function.update_apply]

/-- The rows that a pass is to delete have their records. -/
def PhaseOk (rd : Reader K) (s : State K) : Phase → Prop
  | .idle => True
  | .selected ids records => (∀ id ∈ ids, id ∈ s.used) ∧
      ∀ d ∈ s.rows, d.id ∈ ids → ∃ record ∈ records, Recovers rd record d
  | .written ids => (∀ id ∈ ids, id ∈ s.used) ∧
      ∀ d ∈ s.rows, d.id ∈ ids → ∃ record ∈ s.archived, Recovers rd record d

structure Inv (rd : Reader K) (s : State K) : Prop where
  used : ∀ d ∈ s.rows, d.id ∈ s.used
  distinct : ∀ d ∈ s.rows, ∀ e ∈ s.rows, d.id = e.id → d = e
  phase : ∀ c, PhaseOk rd s (s.process c)
  preserved : Preserved rd s

theorem inv_init (keys : K) {rows : List Decision} (hrows : (rows.map Decision.id).Nodup) :
    Inv rd (State.init keys rows) where
  used _ hd := List.mem_map_of_mem hd
  distinct _ hd _ he heq := List.inj_on_of_nodup_map hrows hd he heq
  phase _ := trivial
  preserved := ⟨nofun, rfl⟩

theorem archive_fields (sink : Sink) (s : State K) (records : List Dict) :
    (s.archive sink records).rows = s.rows ∧ (s.archive sink records).used = s.used ∧
      (s.archive sink records).process = s.process ∧
      (s.archive sink records).deleted = s.deleted := by
  cases sink with
  | null | appending => exact ⟨rfl, rfl, rfl, rfl⟩
  | s3 keyPrefix extension => cases records <;> exact ⟨rfl, rfl, rfl, rfl⟩

variable {records : List Dict} {ph : Phase}

theorem archive_room (h : s.Room sink records) :
    (∀ r ∈ s.archived, r ∈ (s.archive sink records).archived) ∧
      (∀ r ∈ records, r ∈ (s.archive sink records).archived) ∧
      (s.archive sink records).overwritten = s.overwritten := by
  cases sink with
  | null => exact h.elim
  | appending =>
    refine ⟨fun r hr => ?_, fun r hr => ?_, rfl⟩
    · rcases List.mem_append.1 hr with hr | hr
      · exact List.mem_append_left _ (List.mem_append_left _ hr)
      · exact List.mem_append_right _ hr
    · exact List.mem_append_left _ (List.mem_append_right _ hr)
  | s3 keyPrefix extension =>
    cases records with
    | nil => exact ⟨fun _ hr => hr, nofun, rfl⟩
    | cons first rest =>
      have hkeep : (s.objects.filter fun o =>
          o.1 ≠ objectKey keyPrefix extension first (rest.length + 1)) = s.objects :=
        List.filter_eq_self.2 fun o ho => decide_eq_true (h o ho)
      have hnone : (s.objects.filter fun o =>
          o.1 = objectKey keyPrefix extension first (rest.length + 1)) = [] :=
        List.filter_eq_nil_iff.2 fun o ho => by simpa using h o ho
      have hobjects : (s.archive (.s3 keyPrefix extension) (first :: rest)).archived =
          s.appended ++ ((first :: rest) ++ s.objects.flatMap Prod.snd) := by
        show s.appended ++ (_ :: (s.objects.filter fun o =>
          o.1 ≠ objectKey keyPrefix extension first (rest.length + 1))).flatMap Prod.snd = _
        rw [hkeep]
        rfl
      rw [hobjects]
      refine ⟨fun r hr => ?_, fun r hr => ?_, ?_⟩
      · rcases List.mem_append.1 hr with hr | hr
        · exact List.mem_append_left _ hr
        grind
      · exact List.mem_append_right _ (List.mem_append_left _ hr)
      · show (s.objects.filter _) ++ s.overwritten = _
        rw [hnone]
        rfl

theorem PhaseOk.kept (h : PhaseOk rd s ph) (hused : ∀ id ∈ s.used, id ∈ t.used)
    (hrows : ∀ d ∈ t.rows, d ∈ s.rows ∨ d.id ∉ s.used)
    (harchived : ∀ r ∈ s.archived, r ∈ t.archived) : PhaseOk rd t ph := by
  have hold : ∀ ids : List String, (∀ id ∈ ids, id ∈ s.used) → ∀ d ∈ t.rows, d.id ∈ ids →
      d ∈ s.rows := fun ids hids d hd hid => (hrows d hd).resolve_right fun hn => hn (hids _ hid)
  cases ph with
  | idle => trivial
  | selected ids records =>
    exact ⟨fun id hid => hused id (h.1 id hid), fun d hd hid => h.2 d (hold ids h.1 d hd hid) hid⟩
  | written ids =>
    refine ⟨fun id hid => hused id (h.1 id hid), fun d hd hid => ?_⟩
    obtain ⟨record, hrecord, hrec⟩ := h.2 d (hold ids h.1 d hd hid) hid
    exact ⟨record, harchived record hrecord, hrec⟩

theorem Inv.move (h : Inv rd s) {c : ℕ} (hrows : t.rows = s.rows)
    (hused : t.used = s.used) (hproc : t.process = s.process) (hdeleted : t.deleted = s.deleted)
    (harchived : ∀ r ∈ s.archived, r ∈ t.archived) (hover : t.overwritten = s.overwritten)
    (hself : PhaseOk rd t ph) : Inv rd (t.go c ph) where
  used d hd := by
    show d.id ∈ t.used
    rw [hused]
    exact h.used d (hrows ▸ hd)
  distinct d hd e he := h.distinct d (hrows ▸ hd) e (hrows ▸ he)
  phase d := by
    have hp : PhaseOk rd t ((t.go c ph).process d) := by
      rw [go_process, hproc]
      split
      · exact hself
      · exact (h.phase d).kept (fun id hid => hused ▸ hid) (fun e he => Or.inl (hrows ▸ he))
          harchived
    exact hp.kept (fun _ hid => hid) (fun _ he => Or.inl he) fun _ hr => hr
  preserved := by
    refine ⟨fun d hd => ?_, hover.trans h.preserved.2⟩
    obtain ⟨record, hrecord, hrec⟩ := h.preserved.1 d (hdeleted ▸ hd)
    exact ⟨record, harchived record hrecord, hrec⟩

theorem selected_ok (h : Inv rd s) {chosen : List Decision}
    (hsub : ∀ d ∈ chosen, d ∈ s.rows) (hwhole : ∀ d ∈ chosen, Whole rd s.keys d)
    (hread : chosen.mapM (decisionToDict rd s.keys) = .ok records) :
    PhaseOk rd s (.selected (chosen.map Decision.id) records) := by
  refine ⟨fun id hid => ?_, fun d hd hid => ?_⟩
  · obtain ⟨d, hd, rfl⟩ := List.mem_map.1 hid
    exact h.used d (hsub d hd)
  · obtain ⟨e, he, heq⟩ := List.mem_map.1 hid
    obtain rfl := h.distinct e (hsub e he) d hd heq
    grind [mem_left_of_forall₂, mapM_eq_ok, decisionToDict_whole]

theorem Inv.write (h : Inv rd s) {c : ℕ}
    (hroom : s.Room sink records) (hself : PhaseOk rd (s.archive sink records) ph) :
    Inv rd ((s.archive sink records).go c ph) := by
  obtain ⟨hrows, hused, hproc, hdeleted⟩ := archive_fields sink s records
  obtain ⟨hold, -, hover⟩ := archive_room hroom
  exact h.move hrows hused hproc hdeleted hold hover hself

theorem Inv.step (h : Inv rd s) {a : Act K} (hok : Kept rd sink s a)
    (hs : step rd sink s a = some s') : Inv rd s' := by
  cases a with
  | insert d =>
    simp only [Retention.step] at hs
    split at hs
    · cases hs
    · cases hs
      have hnew : ∀ e ∈ s.rows, e.id ≠ d.id := fun e he heq => hok (heq ▸ h.used e he)
      refine ⟨fun e he => ?_, fun e he f hf heq => ?_, fun c => (h.phase c).kept
        (fun id hid => List.mem_cons_of_mem _ hid) (fun e he => ?_) fun _ hr => hr, h.preserved⟩
      · rcases List.mem_cons.1 he with rfl | he
        · exact List.mem_cons_self
        · exact List.mem_cons_of_mem _ (h.used e he)
      · rcases List.mem_cons.1 he with rfl | hold
        · grind
        · rcases List.mem_cons.1 hf with rfl | hold'
          · exact absurd heq (hnew e hold)
          · exact h.distinct e hold f hold' heq
      · rcases List.mem_cons.1 he with rfl | he
        · exact Or.inr hok
        · exact Or.inl he
  | configure keys =>
    cases hs
    exact ⟨h.used, h.distinct, fun c => (h.phase c).kept (fun _ hid => hid)
      (fun _ he => Or.inl he) fun _ hr => hr, h.preserved⟩
  | select c tenant olderThan limit chosen =>
    simp only [Retention.step] at hs
    split at hs
    · split at hs
      · rename_i hsel
        split at hs
        · cases hs
          exact h
        · rename_i records _ hread
          cases hs
          refine h.move rfl rfl rfl rfl (fun _ hr => hr) rfl (selected_ok h (fun d hd => ?_) hok hread)
          exact (List.mem_filter.1 (hsel.2.2.1 d hd)).1
        · cases hs
          exact h
      · cases hs
    · cases hs
  | write c =>
    simp only [Retention.step] at hs
    split at hs
    · rename_i ids records hc
      cases hs
      have hroom := hok ids records hc
      obtain ⟨hids, hrec⟩ : PhaseOk rd s (.selected ids records) := hc ▸ h.phase c
      obtain ⟨hrows, hused, -⟩ := archive_fields sink s records
      refine h.write hroom ⟨fun id hid => hused ▸ hids id hid, fun d hd hid => ?_⟩
      grind [archive_room]
    · cases hs
  | fail c stored =>
    simp only [Retention.step] at hs
    split at hs
    · rename_i ids records hc
      cases hs
      cases stored with
      | true => exact h.write (hok ids records hc rfl) trivial
      | false => exact h.move rfl rfl rfl rfl (fun _ hr => hr) rfl trivial
    · cases hs
      exact h.move rfl rfl rfl rfl (fun _ hr => hr) rfl trivial
    · cases hs
  | delete c =>
    simp only [Retention.step] at hs
    split at hs
    · rename_i ids hc
      cases hs
      obtain ⟨hids, hrec⟩ : PhaseOk rd s (.written ids) := hc ▸ h.phase c
      have hsub : ∀ d ∈ s.rows.filter (fun d : Decision => d.id ∉ ids), d ∈ s.rows :=
        fun d hd => (List.mem_filter.1 hd).1
      refine ⟨fun d hd => h.used d (hsub d hd),
        fun d hd e he => h.distinct d (hsub d hd) e (hsub e he), fun d => ?_, fun d hd => ?_,
        h.preserved.2⟩
      · rw [go_process]
        split
        · trivial
        · exact (h.phase d).kept (fun _ hid => hid) (fun e he => Or.inl (hsub e he)) fun _ hr => hr
      · rcases List.mem_append.1 hd with hd | hd
        · obtain ⟨hd, hid⟩ := List.mem_filter.1 hd
          exact hrec d hd (of_decide_eq_true hid)
        · exact h.preserved.1 d hd
    · cases hs

theorem purged_recoverable {keys : K} {rows : List Decision} (hrows : (rows.map Decision.id).Nodup)
    (h : Reach (step rd sink) (Kept rd sink) (State.init keys rows) s) : Preserved rd s :=
  (h.invariant (inv_init keys hrows) fun _ _ _ hi hok hs => hi.step hok hs : Inv rd s).preserved

end Preserving

/-! ### Device clocks -/

section Clocks
variable {K : Type} {rd : Reader K} {sink : Sink} {s s' : State K}

def Cutoffs (t : ℤ) (_ : State K) : Act K → Prop
  | .select _ _ olderThan _ _ => olderThan ≤ t
  | _ => True

def Phase.ids : Phase → List String
  | .idle => []
  | .selected ids _ | .written ids => ids

/-- The row is there, and no pass is to delete it. -/
structure Safe (d : Decision) (s : State K) : Prop where
  mem : d ∈ s.rows
  only : ∀ e ∈ s.rows, e.id = d.id → e = d
  spared : ∀ c, d.id ∉ (s.process c).ids

variable {d : Decision}

theorem Safe.move {t : State K} (h : Safe d s) {c : ℕ} {ph : Phase}
    (hrows : t.rows = s.rows) (hproc : t.process = s.process) (hph : d.id ∉ ph.ids) :
    Safe d (t.go c ph) := by
  refine ⟨?_, fun e he => h.only e (hrows ▸ he), fun b => ?_⟩
  · show d ∈ t.rows
    rw [hrows]
    exact h.mem
  · rw [go_process, hproc]
    split
    · exact hph
    · exact h.spared b

theorem Safe.step {d : Decision} {t : ℤ} (h : Safe d s) (ht : t ≤ d.createdAt) {a : Act K}
    (hok : Cutoffs t s a) (hs : step rd sink s a = some s') : Safe d s' := by
  cases a with
  | insert e =>
    simp only [Retention.step] at hs
    split at hs
    · cases hs
    · rename_i hfree
      cases hs
      refine ⟨List.mem_cons_of_mem _ h.mem, fun f hf heq => ?_, h.spared⟩
      rcases List.mem_cons.1 hf with rfl | hold
      · exact absurd (List.any_eq_true.2 ⟨d, h.mem, decide_eq_true heq.symm⟩) hfree
      · exact h.only f hold heq
  | configure keys =>
    cases hs
    exact ⟨h.mem, h.only, h.spared⟩
  | select c tenant olderThan limit chosen =>
    simp only [Retention.step] at hs
    split at hs
    · split at hs
      · rename_i hsel
        split at hs
        · cases hs
          exact h
        · cases hs
          refine h.move rfl rfl fun hid => ?_
          obtain ⟨e, he, heq⟩ := List.mem_map.1 hid
          obtain ⟨hmem, hold⟩ := List.mem_filter.1 (hsel.2.2.1 e he)
          rw [h.only e hmem heq] at hold
          have hlt : d.createdAt < olderThan := (of_decide_eq_true hold).2
          have hcut : olderThan ≤ t := hok
          omega
        · cases hs
          exact h
      · cases hs
    · cases hs
  | write c =>
    simp only [Retention.step] at hs
    split at hs
    · rename_i ids records hc
      cases hs
      have hspared := h.spared c
      rw [hc] at hspared
      obtain ⟨hrows, -, hproc, -⟩ := archive_fields sink s records
      exact h.move hrows hproc hspared
    · cases hs
  | fail c stored =>
    simp only [Retention.step] at hs
    split at hs
    · rename_i ids records hc
      cases hs
      cases stored with
      | true =>
        obtain ⟨hrows, -, hproc, -⟩ := archive_fields sink s records
        exact h.move hrows hproc List.not_mem_nil
      | false => exact h.move rfl rfl List.not_mem_nil
    · cases hs
      exact h.move rfl rfl List.not_mem_nil
    · cases hs
  | delete c =>
    simp only [Retention.step] at hs
    split at hs
    · rename_i ids hc
      cases hs
      have hspared := h.spared c
      rw [hc] at hspared
      refine ⟨List.mem_filter.2 ⟨h.mem, decide_eq_true hspared⟩,
        fun e he => h.only e (List.mem_filter.1 he).1, fun b => ?_⟩
      rw [go_process]
      split
      · exact List.not_mem_nil
      · exact h.spared b
    · cases hs

theorem decisionToDict_exists {keys : K}
    (h : ∀ column ∈ encryptedColumns d, decryptDecisionField rd keys column.stored ≠ .error .value) :
    ∃ record, decisionToDict rd keys d = .ok record := by
  have hflags : ∀ column ∈ encryptedColumns d,
      ∃ b, decisionFieldIsUndecryptable rd keys column.stored = .ok b := by
    intro column hcolumn
    unfold decisionFieldIsUndecryptable
    split
    · exact ⟨_, rfl⟩
    · exact ⟨_, rfl⟩
    · simp_all
  have hread : ∀ column ∈ encryptedColumns d, ∃ v, readColumn rd keys column = .ok v := by
    intro column hcolumn
    have hlenient : ∃ v, decryptDecisionFieldLenient rd keys column.stored column.empty = .ok v := by
      unfold decryptDecisionFieldLenient
      cases hdec : decryptDecisionField rd keys column.stored with
      | ok v => exact ⟨v, rfl⟩
      | error e =>
        cases e with
        | decryption => exact ⟨_, rfl⟩
        | value => exact absurd hdec (h column hcolumn)
    obtain ⟨v, hv⟩ := hlenient
    unfold readColumn
    rw [hv]
    exact ⟨_, rfl⟩
  obtain ⟨flags, hflags⟩ := mapM_exists hflags
  obtain ⟨entries, hentries⟩ := mapM_exists hread
  unfold decisionToDict
  rw [hflags, hentries]
  exact ⟨_, rfl⟩

theorem purge_alone (sink : Sink) {keys : K} {t : ℤ} (ht : d.createdAt < t)
    (hread : ∃ record, decisionToDict rd keys d = .ok record) :
    ∃ s, Reach (step rd sink) (Cutoffs t) (State.init keys [d]) s ∧ d ∉ s.rows := by
  obtain ⟨record, hrecord⟩ := hread
  have hsel : (State.init keys [d]).Selects d.tenantId t 1 [d] := by
    have helig : (State.init keys [d]).eligible d.tenantId t = [d] := by
      simp [State.eligible, State.init, ht]
    refine ⟨List.nodup_singleton d, Nat.le_refl _, fun e he => ?_, List.pairwise_singleton _ _,
      fun e he => ?_⟩
    · rw [helig]
      exact he
    · rw [helig] at he
      exact Or.inl he
  have hmap : [d].mapM (decisionToDict rd (State.init keys [d]).keys) = .ok [record] := by
    show ([d].mapM (decisionToDict rd keys)) = _
    rw [List.mapM_cons, hrecord]
    rfl
  have hselect : step rd sink (State.init keys [d]) (.select 0 d.tenantId t 1 [d]) =
      some ((State.init keys [d]).go 0 (.selected [d.id] [record])) := by
    simp only [Retention.step]
    show (if _ then _ else _) = _
    rw [if_pos hsel, hmap]
    rfl
  have hwrite : ∀ u : State K, step rd sink (u.go 0 (.selected [d.id] [record])) (.write 0) =
      some (((u.go 0 (.selected [d.id] [record])).archive sink [record]).go 0 (.written [d.id])) :=
    fun u => by simp only [Retention.step, go_process, if_pos]
  have hdelete : ∀ u : State K, step rd sink (u.go 0 (.written [d.id])) (.delete 0) =
      some ({ u.go 0 (.written [d.id]) with
        rows := u.rows.filter fun e : Decision => e.id ∉ [d.id]
        deleted := (u.rows.filter fun e : Decision => e.id ∈ [d.id]) ++ u.deleted }.go 0 .idle) :=
    fun u => by
      simp only [Retention.step, go_process, if_pos]
      rfl
  have hcut : Cutoffs t (State.init keys [d]) (.select 0 d.tenantId t 1 [d]) := Int.le_refl t
  refine ⟨_, .next (.next (.next .start hcut hselect) (show Cutoffs t _ (.write 0) from trivial)
    (hwrite _)) (show Cutoffs t _ (.delete 0) from trivial) (hdelete _), fun hd => ?_⟩
  obtain ⟨-, hid⟩ := List.mem_filter.1 hd
  exact of_decide_eq_true hid List.mem_cons_self

theorem retained_iff {py : PyText} {svc : Services} {keys : K} {uuid tenant : String} {salt : ℕ}
    {record : Dict} {t : ℤ} {d : Decision}
    (hd : decisionOf py svc uuid salt tenant record t = .ok d)
    (hcrypt : ∀ column ∈ encryptedColumns d,
      decryptDecisionField rd keys column.stored ≠ .error .value) :
    (∀ others s, ((d :: others).map Decision.id).Nodup →
      Reach (step rd sink) (Cutoffs t) (State.init keys (d :: others)) s → d ∈ s.rows) ↔
      ∀ created, parseClientDatetime svc (either record "created_at" "createdAt") =
        .ok (some created) → t ≤ created := by
  obtain ⟨-, -, -, -, -, -, created, hparse, hcreated⟩ := decisionOf_eq_ok py svc hd
  constructor
  · intro h clock hclock
    rw [hparse] at hclock
    cases hclock
    by_contra hlt
    have ht : d.createdAt < t := by
      rw [hcreated]
      exact Int.not_le.1 hlt
    obtain ⟨s, hreach, hgone⟩ := purge_alone sink ht (decisionToDict_exists hcrypt)
    exact hgone (h [] s (List.nodup_singleton _) hreach)
  · intro h others s hids hreach
    have ht : t ≤ d.createdAt := by
      rw [hcreated]
      cases created with
      | none => exact Int.le_refl t
      | some clock => exact h clock hparse
    have hstart : Safe d (State.init keys (d :: others)) :=
      ⟨List.mem_cons_self, fun e he heq => List.inj_on_of_nodup_map hids he List.mem_cons_self heq,
        fun c => List.not_mem_nil⟩
    exact (hreach.invariant hstart fun _ _ _ hi hok hs => hi.step ht hok hs : Safe d s).mem

end Clocks

/-! ### Runs -/

def newYear : ℤ := 738885 * 86400 * 10 ^ 6

/-- Keys that open one token, and keys that do not. -/
def demoReader : Reader Bool where
  decrypt keys token := if keys ∧ token = "gAAAAABl" then some "\x7b\"age\":30\x7d" else none
  loads text := if text = "\x7b\"age\":30\x7d" then some (.dict [("age", .int 30)]) else none
  isoformat _ := "2024-01-01T00:00:00"

def demoRow (payload : Value) : Decision where
  id := "7c9e6679"
  tenantId := "acme"
  clientId := some "a"
  userId := .null
  policyId := .str "loan"
  payloadHash := "44136fa355b3678a1146ad16f7e8649e"
  payloadPreview := payload
  computedVariables := .dict []
  ruleResults := .list []
  scorecardResult := .null
  trace := .list []
  outcome := .str "approve"
  latencyMs := 3
  source := .str "on_device"
  sdkVersion := .null
  experimentId := .null
  experimentVariant := .null
  deviceId := .null
  bundleHash := .null
  createdAt := newYear
  receivedAt := newYear

def purgeRun (d : Decision) : List (Act Bool) :=
  [.select 0 "acme" (newYear + 1) 1000 [d], .write 0, .delete 0]

def bucket : Sink := .s3 "rulemind/decisions" "jsonl.gz"

theorem purged_recovered : ∃ s,
    Reach (step demoReader bucket) (Kept demoReader bucket)
      (State.init true [demoRow (.str "gAAAAABl")]) s ∧
      s.deleted = [demoRow (.str "gAAAAABl")] ∧ Preserved demoReader s := by
  have hwhole : Whole demoReader true (demoRow (.str "gAAAAABl")) := by
    refine ⟨fun column hcolumn => ?_, rfl, rfl⟩
    simp only [encryptedColumns, demoRow, List.mem_cons, List.not_mem_nil, or_false] at hcolumn
    rcases hcolumn with rfl | rfl | rfl | rfl | rfl
    · exact ⟨.dict [("age", .int 30)], rfl, fun _ => Or.inl rfl⟩
    all_goals exact ⟨_, rfl, fun _ => Or.inr rfl⟩
  have halong : Along (step demoReader bucket) (Kept demoReader bucket)
      (State.init true [demoRow (.str "gAAAAABl")]) (purgeRun (demoRow (.str "gAAAAABl"))) := by
    refine .cons (fun d hd => ?_) rfl (.cons (fun ids records hc => ?_) rfl
      (.cons trivial rfl trivial))
    · rw [List.mem_singleton.1 hd]
      exact hwhole
    · cases hc
      exact nofun
  have hreach : Reach (step demoReader bucket) (Kept demoReader bucket)
      (State.init true [demoRow (.str "gAAAAABl")]) _ :=
    reach_exec (show exec _ _ (purgeRun (demoRow (.str "gAAAAABl"))) = some _ from rfl) halong
  have hids : ([demoRow (.str "gAAAAABl")].map Decision.id).Nodup := List.nodup_singleton _
  exact ⟨_, hreach, rfl, purged_recoverable hids hreach⟩

/-- The keys are changed, and the row is purged with an empty payload in its record. -/
theorem purged_unread : ∃ s,
    Reachable (step demoReader bucket) (State.init false [demoRow (.str "gAAAAABl")]) s ∧
      ¬ Preserved demoReader s := by
  refine ⟨_, reachable_exec (show exec _ _ (purgeRun (demoRow (.str "gAAAAABl"))) = some _
    from rfl), fun h => ?_⟩
  obtain ⟨record, hrecord, hrec⟩ := h.1 (demoRow (.str "gAAAAABl")) (List.mem_singleton.2 rfl)
  cases List.mem_singleton.1 hrecord
  obtain ⟨keys, v, hv, hread⟩ := hrec.encrypted ⟨"payload", .str "gAAAAABl", .dict [], true⟩
    List.mem_cons_self
  cases hv
  cases keys <;> cases hread

/-- A server that stores in plain text, and knows one time. -/
def clockServices : Services where
  fromIsoFormat text := if text = "2024-01-01T00:00:00+00:00" then some ⟨newYear, some 0⟩ else none
  payloadHash _ := "44136fa355b3678a1146ad16f7e8649e"
  encrypt _ _ v := v
  binds _ := true

/-- A decision that a device took at the beginning of 2024, as its clock had it. -/
def clockRecord : Dict :=
  [("id", .str "a"), ("outcome", .str "approve"), ("created_at", .str "2024-01-01T00:00:00Z")]

theorem new_year_retained : ∃ d,
    decisionOf asciiText clockServices "7c9e6679" 0 "acme" clockRecord newYear = .ok d ∧
      ((∀ others s, ((d :: others).map Decision.id).Nodup →
        Reach (step demoReader bucket) (Cutoffs newYear) (State.init true (d :: others)) s →
          d ∈ s.rows) ↔
        ∀ created, parseClientDatetime clockServices
          (either clockRecord "created_at" "createdAt") = .ok (some created) →
            newYear ≤ created) := by
  refine ⟨_, rfl, retained_iff rfl fun column hcolumn => ?_⟩
  simp only [encryptedColumns, List.mem_cons, List.not_mem_nil, or_false] at hcolumn
  rcases hcolumn with rfl | rfl | rfl | rfl | rfl
  all_goals exact nofun

def nextDay : ℤ := newYear + 86400 * 10 ^ 6

/-- The same decision, received the day after: a pass with that day's cutoff deletes it. -/
theorem early_clock_purged : ∃ d s,
    decisionOf asciiText clockServices "7c9e6679" 0 "acme" clockRecord nextDay = .ok d ∧
      Reach (step demoReader bucket) (Cutoffs nextDay) (State.init true [d]) s ∧ d ∉ s.rows := by
  have hearly : ∀ d, decisionOf asciiText clockServices "7c9e6679" 0 "acme" clockRecord nextDay =
      .ok d → d.createdAt < nextDay ∧ ∃ record, decisionToDict demoReader true d = .ok record := by
    intro d hd
    cases hd
    exact ⟨by decide, _, rfl⟩
  obtain ⟨d, hd⟩ : ∃ d, decisionOf asciiText clockServices "7c9e6679" 0 "acme" clockRecord
    nextDay = .ok d := ⟨_, rfl⟩
  obtain ⟨hlt, hread⟩ := hearly d hd
  obtain ⟨s, hreach, hgone⟩ := purge_alone bucket hlt hread
  exact ⟨d, s, hd, hreach, hgone⟩

end RuleMind.Retention
