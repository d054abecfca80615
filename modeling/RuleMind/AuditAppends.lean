/-
  Appending to the audit chain: `add_audit_event` and `verify_audit_chain` of `app/storage.py`,
  with the encryption of a row's metadata and address (`encrypt_audit_field`,
  `encrypt_audit_text`) and `_audit_event_to_dict`, which reads them back.

  A writer reads the tail of its tenant's chain and inserts a row behind it, in two steps.  The keys
  and the switch of the encryption change at any time.  The digest, the encryption and `json.loads`
  are parameters.
-/
import RuleMind.AuditChain
import RuleMind.PolicyDiff
import RuleMind.Retention
import Mathlib.Data.List.MinMax

namespace RuleMind.Appends

open Lib Audit
open PolicyDiff (JsonFloats toJson jsonDumps)
open Retention (Reader ReadError looksEncrypted decryptDecisionField decryptDecisionFieldLenient
  serializeDatetime)

/-! ### Rows -/

/-- What writing and reading a row takes from elsewhere; `K` stands for the keys configured. -/
structure Codec (K : Type) extends Reader K where
  /-- `crypto().encrypt`, with the time and the salt of the token. -/
  encrypt : K → ℕ → String → String
  /-- The floats of `json.dumps`. -/
  floats : JsonFloats
  /-- SHA-256 in hexadecimal digits. -/
  digest : String → String

/-- What is known of Fernet: a token opens with the keys it was made with, to the text that was
    encrypted, and with others to that or not at all, whatever that text is. -/
structure Codec.Lawful {K : Type} (cd : Codec K) : Prop where
  token : ∀ keys salt text, looksEncrypted (cd.encrypt keys salt text) = true
  opens : ∀ keys salt text, cd.decrypt keys (cd.encrypt keys salt text) = some text
  agree : ∀ keys keys' token text text', cd.decrypt keys token = some text →
    cd.decrypt keys' token = some text' → text = text'
  sameKeys : ∀ keys keys' salt salt' text text',
    (cd.decrypt keys' (cd.encrypt keys salt text)).isSome =
      (cd.decrypt keys' (cd.encrypt keys salt' text')).isSome
  digest : ∀ text, cd.digest text ≠ ""

/-- A row of `audit_events`. -/
structure Stored where
  id : String
  tenantId : String
  eventType : String
  entityType : Option String
  entityId : Option String
  detail : String
  metadataJson : Value
  userId : Option String
  ipAddress : Option String
  createdAt : ℤ
  seq : ℕ
  prevHash : String
  hash : Option String

/-- The payload of an `add_audit_event`, its tenant resolved. -/
structure Event where
  tenantId : String
  eventType : Option String
  entityType : Option String
  entityId : Option String
  detail : Option String
  metadata : Value
  userId : Option String
  ipAddress : Option String

/-- `RULEMIND_CONFIG_KEY` and `RULEMIND_CONFIG_KEY_OLD`, and `AUDIT_ENCRYPT_AT_REST`. -/
structure Config (K : Type) where
  keys : K
  encryptAtRest : Bool

section Rows
variable {K : Type} (cd : Codec K)

def encryptAuditField (cfg : Config K) (salt : ℕ) (value : Value) : Value :=
  if value = .null ∨ cfg.encryptAtRest = false then value
  else .str (cd.encrypt cfg.keys salt (jsonDumps cd.floats value))

def encryptAuditText (cfg : Config K) (salt : ℕ) : Option String → Option String
  | none => none
  | some text =>
    if text = "" ∨ cfg.encryptAtRest = false then some text
    else some (cd.encrypt cfg.keys salt text)

def decryptAuditText (keys : K) : Option String → Except ReadError (Option String)
  | none => .ok none
  | some text =>
    if looksEncrypted text then
      match cd.decrypt keys text with
      | some plain => .ok (some plain)
      | none => .error .decryption
    else .ok (some text)

/-- The metadata, and whether it could not be decrypted.  The lenient read has caught the error
    that the second branch is for. -/
def readMetadata (keys : K) (stored : Value) : Except ReadError (Value × Bool) :=
  match decryptDecisionFieldLenient cd.toReader keys stored (.dict []) with
  | .ok metadata => .ok (metadata, false)
  | .error .decryption => .ok (.dict [], true)
  | .error .value => .error .value

/-- `metadata if isinstance(metadata, dict) else {}`. -/
def dictOrEmpty : Value → Value
  | .dict kvs => .dict kvs
  | _ => .dict []

/-- The address, and whether it could not be decrypted. -/
def readAddress (keys : K) (stored : Option String) : Option String × Bool :=
  match decryptAuditText cd keys stored with
  | .ok ip => (ip, false)
  | .error _ => (none, true)

/-- The chained fields, with the metadata and the address as they read. -/
def Stored.content (row : Stored) (metadata : Value) (ip : Option String) : Content where
  id := some row.id
  tenantId := some row.tenantId
  eventType := some row.eventType
  entityType := row.entityType
  entityId := row.entityId
  detail := some row.detail
  metadata := toJson cd.floats (dictOrEmpty metadata)
  userId := row.userId
  ipAddress := ip
  createdAt := (serializeDatetime cd.toReader row.createdAt).asStr
  seq := some row.seq
  prevHash := some row.prevHash

def auditEventToDict (keys : K) (row : Stored) : Except ReadError Row :=
  (readMetadata cd keys row.metadataJson).map fun read =>
    let address := readAddress cd keys row.ipAddress
    ⟨row.content cd read.1 address.1, row.hash, read.2 || address.2⟩

end Rows

/-! ### Writers -/

/-- Where an `add_audit_event` stands, and in which attempt. -/
inductive Phase
  | idle
  | trying (event : Event) (attempt : ℕ)
  | read (event : Event) (attempt : ℕ) (seq : ℕ) (prevHash : String)

structure State (K : Type) where
  /-- In the order of the commits. -/
  rows : List Stored
  config : Config K
  writer : ℕ → Phase

def State.init {K : Type} (config : Config K) : State K := ⟨[], config, fun _ => .idle⟩

inductive Act (K : Type)
  | configure (config : Config K)
  | call (w : ℕ) (event : Event)
  | readTail (w : ℕ)
  /-- The row is inserted and committed, with a new id, at a time, or is not. -/
  | insert (w : ℕ) (id : String) (createdAt : ℤ) (salt salt' : ℕ)

section Steps
variable {K : Type} (cd : Codec K)

def State.go (s : State K) (w : ℕ) (ph : Phase) : State K :=
  { s with writer := Function.update s.writer w ph }

def State.ofTenant (s : State K) (tenant : String) : List Stored :=
  s.rows.filter fun row => row.tenantId = tenant

/-- `(tail[0] + 1) if tail else 1`, and the hash of the tail where it has one. -/
def behind (tail : Option Stored) : ℕ × String :=
  (tail.elim 1 (·.seq + 1),
    ((tail.bind Stored.hash).filter fun hash => decide (hash ≠ "")).getD GENESIS_HASH)

/-- The model before its hash is computed; nothing where a column must not be null. -/
def newRow (cfg : Config K) (event : Event) (seq : ℕ) (prevHash id : String) (createdAt : ℤ)
    (salt salt' : ℕ) : Option Stored := do
  let eventType ← event.eventType
  let detail ← event.detail
  some {
    id := id
    tenantId := event.tenantId
    eventType := eventType
    entityType := event.entityType
    entityId := event.entityId
    detail := detail
    metadataJson := encryptAuditField cd cfg salt event.metadata
    userId := event.userId
    ipAddress := encryptAuditText cd cfg salt' event.ipAddress
    createdAt := createdAt
    seq := seq
    prevHash := prevHash
    hash := none }

/-- The row does not violate a constraint of the table. -/
def State.Accepts (s : State K) (row : Stored) : Prop :=
  ∀ old ∈ s.rows, old.id ≠ row.id ∧ ¬ (old.tenantId = row.tenantId ∧ old.seq = row.seq)

instance (s : State K) (row : Stored) : Decidable (s.Accepts row) :=
  inferInstanceAs (Decidable (∀ old ∈ s.rows, _))

/-- `except IntegrityError`. -/
def State.retry (s : State K) (w : ℕ) (event : Event) (attempt : ℕ) : State K :=
  s.go w (if 5 ≤ attempt then .idle else .trying event (attempt + 1))

def step (s : State K) (a : Act K) : Option (State K) :=
  match a with
  | .configure config => some { s with config := config }
  | .call w event =>
    match s.writer w with
    | .idle => some (s.go w (.trying event 1))
    | _ => none
  | .readTail w =>
    match s.writer w with
    | .trying event attempt =>
      let tail := behind ((s.ofTenant event.tenantId).argmax Stored.seq)
      some (s.go w (.read event attempt tail.1 tail.2))
    | _ => none
  | .insert w id createdAt salt salt' =>
    match s.writer w with
    | .read event attempt seq prevHash =>
      match newRow cd s.config event seq prevHash id createdAt salt salt' with
      | none => some (s.retry w event attempt)
      | some row =>
        if s.Accepts row then
          match auditEventToDict cd s.config.keys row with
          | .ok dict =>
            let hash := computeHash cd.digest dict.toContent
            some ({ s with rows := s.rows ++ [{ row with hash := some hash }] }.go w .idle)
          -- the exception takes the row back
          | .error _ => some (s.go w .idle)
        else some (s.retry w event attempt)
    | _ => none

/-- The rows of a tenant in the order of their numbers. -/
def State.auditRows (s : State K) (tenant : String) : List Stored :=
  (s.ofTenant tenant).insertionSort fun a b => a.seq ≤ b.seq

/-- `verify_audit_chain`, in a process with these keys; a limit of zero is none. -/
def verifyAuditChain (s : State K) (keys : K) (tenant : String) (limit : Option ℕ) :
    Except ReadError Report :=
  let rows := s.auditRows tenant
  let limited := match limit with
    | some (n + 1) => rows.take (n + 1)
    | _ => rows
  (limited.mapM (auditEventToDict cd keys)).map (verify cd.digest)

/-- Numbered from 1 without a gap, and each linked to the one before. -/
structure Contiguous (rows : List Stored) : Prop where
  seq : ∀ (i : ℕ) (row : Stored), rows[i]? = some row → row.seq = i + 1
  first : ∀ row : Stored, rows[0]? = some row → row.prevHash = GENESIS_HASH
  linked : ∀ (i : ℕ) (a b : Stored), rows[i]? = some a → rows[i + 1]? = some b → a.hash = some b.prevHash

structure Verifies (s : State K) : Prop where
  contiguous : ∀ tenant, Contiguous (s.auditRows tenant)
  matching : ∀ keys tenant limit report, verifyAuditChain cd s keys tenant limit = .ok report →
    ∀ b ∈ report.breaks, ∀ expected found, b.reason ≠ .contentHashMismatch expected found

/-- What every configuration reads from the event as it would be stored now, unless it is
    flagged: under encryption it has an address that is encrypted with it, or no metadata to
    speak of; in plain text the metadata is no ciphertext, and the address is none that the keys
    do not open. -/
def Legible (cfg : Config K) (event : Event) : Prop :=
  if cfg.encryptAtRest then
    (∃ ip, event.ipAddress = some ip ∧ ip ≠ "") ∨ event.metadata = .null ∨
      ∀ v, cd.loads (jsonDumps cd.floats event.metadata) = some v → dictOrEmpty v = .dict []
  else
    (∀ text, event.metadata = .str text → looksEncrypted text = false) ∧
      ∃ ip, decryptAuditText cd cfg.keys event.ipAddress = .ok ip

def Recorded (s : State K) : Act K → Prop
  | .insert w _ _ _ _ => ∀ event attempt seq prevHash,
      s.writer w = .read event attempt seq prevHash → Legible cd s.config event
  | _ => True

end Steps

/-! ### A row reads as it was hashed -/

section Reading
variable {K : Type} {cd : Codec K} {keys keys' : K} {row : Stored} {dict : Row}

theorem decryptDecisionField_plain (keys keys' : K) {value : Value}
    (h : ∀ text, value = .str text → looksEncrypted text = false) :
    decryptDecisionField cd.toReader keys value = decryptDecisionField cd.toReader keys' value := by
  cases value with
  | str text =>
    rw [decryptDecisionField, decryptDecisionField, h text rfl]
    rfl
  | _ => rfl

theorem readMetadata_flag {stored metadata : Value} {flag : Bool}
    (h : readMetadata cd keys stored = .ok (metadata, flag)) :
    flag = false ∧
      decryptDecisionFieldLenient cd.toReader keys stored (.dict []) = .ok metadata := by
  unfold readMetadata at h
  split at h
  · next m hm =>
    cases h
    exact ⟨rfl, hm⟩
  · grind [decryptDecisionFieldLenient]
  · cases h

theorem auditEventToDict_ok (h : auditEventToDict cd keys row = .ok dict) :
    ∃ metadata, decryptDecisionFieldLenient cd.toReader keys row.metadataJson (.dict []) =
        .ok metadata ∧
      dict.toContent = row.content cd metadata (readAddress cd keys row.ipAddress).1 ∧
      dict.hash = row.hash ∧
      dict.metadataUndecryptable = (readAddress cd keys row.ipAddress).2 := by
  obtain ⟨⟨metadata, flag⟩, hread, rfl⟩ := map_eq_ok.1 h
  obtain ⟨rfl, hm⟩ := readMetadata_flag hread
  exact ⟨metadata, hm, rfl, rfl, rfl⟩

/-- With any keys the row is flagged, or reads as it did when it was written. -/
def Settled (cd : Codec K) (keys : K) (row : Stored) : Prop :=
  ∀ keys' dict dict', auditEventToDict cd keys row = .ok dict →
    auditEventToDict cd keys' row = .ok dict' →
    dict'.metadataUndecryptable = true ∨ dict'.toContent = dict.toContent

theorem settled_of_reads (h : ∀ keys' m m', (readAddress cd keys' row.ipAddress).2 = false →
      decryptDecisionFieldLenient cd.toReader keys row.metadataJson (.dict []) = .ok m →
      decryptDecisionFieldLenient cd.toReader keys' row.metadataJson (.dict []) = .ok m' →
      (readAddress cd keys' row.ipAddress).1 = (readAddress cd keys row.ipAddress).1 ∧
        dictOrEmpty m' = dictOrEmpty m) : Settled cd keys row := by
  intro keys' dict dict' hd hd'
  obtain ⟨m, hm, hcontent, -, -⟩ := auditEventToDict_ok hd
  obtain ⟨m', hm', hcontent', -, hflag⟩ := auditEventToDict_ok hd'
  rw [hflag]
  cases hread : (readAddress cd keys' row.ipAddress).2 with
  | true => exact .inl rfl
  | false => grind -ring -linarith [Stored.content]

theorem readAddress_agree (hcd : cd.Lawful) {stored ip : Option String}
    (h : decryptAuditText cd keys stored = .ok ip)
    (hread : (readAddress cd keys' stored).2 = false) :
    readAddress cd keys' stored = (ip, false) := by
  cases stored with
  | none =>
    cases h
    rfl
  | some text =>
    simp only [readAddress, decryptAuditText] at h hread ⊢
    by_cases hc : looksEncrypted text = true
    · rw [if_pos hc] at h hread ⊢
      cases hk : cd.decrypt keys text with
      | none => simp [hk] at h
      | some plain =>
        cases hk' : cd.decrypt keys' text with
        | none => simp [hk'] at hread
        | some plain' =>
          rw [hk] at h
          cases h
          rw [hcd.agree keys keys' text plain plain' hk hk']
    · rw [if_neg hc] at h ⊢
      cases h
      rfl

theorem readAddress_ok {stored ip : Option String} (h : decryptAuditText cd keys stored = .ok ip) :
    readAddress cd keys stored = (ip, false) := by
  rw [readAddress, h]

theorem readAddress_token {token : String} (h : looksEncrypted token = true) :
    (readAddress cd keys (some token)).2 = (cd.decrypt keys token).isNone := by
  rw [readAddress, decryptAuditText, if_pos h]
  cases cd.decrypt keys token <;> rfl

theorem lenient_token (hcd : cd.Lawful) {salt : ℕ} {text : String} {m : Value}
    (h : decryptDecisionFieldLenient cd.toReader keys' (.str (cd.encrypt keys salt text))
      (.dict []) = .ok m) :
    (cd.decrypt keys' (cd.encrypt keys salt text)).isSome = true ∧ cd.loads text = some m ∨
      (cd.decrypt keys' (cd.encrypt keys salt text)).isSome = false ∧ m = .dict [] := by
  rw [decryptDecisionFieldLenient, decryptDecisionField, if_pos (hcd.token keys salt text)] at h
  cases hopen : cd.decrypt keys' (cd.encrypt keys salt text) with
  | none =>
    rw [hopen] at h
    cases h
    exact .inr ⟨rfl, rfl⟩
  | some plain =>
    rw [hopen, ← hcd.agree keys keys' _ text plain (hcd.opens keys salt text) hopen] at h
    grind

end Reading

/-! ### What is stored reads as it was hashed -/

section Storing
variable {K : Type} {cd : Codec K} {cfg : Config K} {event : Event} {row : Stored}
  {seq salt salt' : ℕ} {prevHash id : String} {createdAt : ℤ}

structure Stores (cd : Codec K) (cfg : Config K) (event : Event) (seq : ℕ) (prevHash : String)
    (salt salt' : ℕ) (row : Stored) : Prop where
  tenantId : row.tenantId = event.tenantId
  seq : row.seq = seq
  prevHash : row.prevHash = prevHash
  metadata : row.metadataJson = encryptAuditField cd cfg salt event.metadata
  address : row.ipAddress = encryptAuditText cd cfg salt' event.ipAddress

theorem newRow_stores (h : newRow cd cfg event seq prevHash id createdAt salt salt' = some row) :
    Stores cd cfg event seq prevHash salt salt' row := by
  obtain ⟨eventType, -, h⟩ := Option.bind_eq_some_iff.1 h
  obtain ⟨detail, -, h⟩ := Option.bind_eq_some_iff.1 h
  cases h
  exact ⟨rfl, rfl, rfl, rfl, rfl⟩

theorem settled_plain (hcd : cd.Lawful) (h : Stores cd cfg event seq prevHash salt salt' row)
    (hoff : cfg.encryptAtRest = false)
    (hm : ∀ text, event.metadata = .str text → looksEncrypted text = false)
    (hip : ∃ ip, decryptAuditText cd cfg.keys event.ipAddress = .ok ip) :
    Settled cd cfg.keys row := by
  obtain ⟨ip, hip⟩ := hip
  have haddress : row.ipAddress = event.ipAddress := by
    rw [h.address]
    cases event.ipAddress with
    | none => rfl
    | some text => exact if_pos (.inr hoff)
  have hmetadata : row.metadataJson = event.metadata := by
    rw [h.metadata]
    exact if_pos (.inr hoff)
  refine settled_of_reads fun keys' m m' hread hm₁ hm₂ => ?_
  rw [haddress] at hread ⊢
  rw [readAddress_agree hcd hip hread, readAddress_ok hip]
  rw [hmetadata, decryptDecisionFieldLenient] at hm₁ hm₂
  rw [decryptDecisionField_plain keys' cfg.keys hm] at hm₂
  rw [hm₁] at hm₂
  cases hm₂
  exact ⟨rfl, rfl⟩

theorem settled_null (h : Stores cd cfg event seq prevHash salt salt' row)
    (hnull : event.metadata = .null) {keys' : K} {m m' : Value}
    (hm : decryptDecisionFieldLenient cd.toReader cfg.keys row.metadataJson (.dict []) = .ok m)
    (hm' : decryptDecisionFieldLenient cd.toReader keys' row.metadataJson (.dict []) = .ok m') :
    m' = m := by
  rw [h.metadata, encryptAuditField, if_pos (.inl hnull), hnull] at hm hm'
  cases hm
  cases hm'
  rfl

theorem stored_token (h : Stores cd cfg event seq prevHash salt salt' row)
    (hon : cfg.encryptAtRest = true) (hnull : event.metadata ≠ .null) :
    row.metadataJson = .str (cd.encrypt cfg.keys salt (jsonDumps cd.floats event.metadata)) := by
  rw [h.metadata, encryptAuditField, if_neg]
  rw [hon]
  exact fun hor => hor.elim hnull nofun

theorem settled_addressed (hcd : cd.Lawful) (h : Stores cd cfg event seq prevHash salt salt' row)
    (hon : cfg.encryptAtRest = true) {ip : String} (hip : event.ipAddress = some ip)
    (hne : ip ≠ "") : Settled cd cfg.keys row := by
  have haddress : row.ipAddress = some (cd.encrypt cfg.keys salt' ip) := by
    rw [h.address, hip, encryptAuditText, if_neg]
    rw [hon]
    exact fun hor => hor.elim hne nofun
  have hplain : decryptAuditText cd cfg.keys row.ipAddress = .ok (some ip) := by
    rw [haddress, decryptAuditText, if_pos (hcd.token _ _ _), hcd.opens]
  refine settled_of_reads fun keys' m m' hread hm hm' => ⟨?_, ?_⟩
  · rw [readAddress_agree hcd hplain hread, readAddress_ok hplain]
  · by_cases hnull : event.metadata = .null
    · rw [settled_null h hnull hm hm']
    · rw [haddress, readAddress_token (hcd.token _ _ _), Option.isNone_eq_false_iff,
        hcd.sameKeys cfg.keys keys' salt' salt ip (jsonDumps cd.floats event.metadata)] at hread
      rw [stored_token h hon hnull] at hm hm'
      have hown := hcd.opens cfg.keys salt (jsonDumps cd.floats event.metadata)
      rcases lenient_token hcd hm with ⟨-, hloads⟩ | ⟨hnot, -⟩
      · rcases lenient_token hcd hm' with ⟨-, hloads'⟩ | ⟨hnot', -⟩
        · simp_all
        · rw [hread] at hnot'
          cases hnot'
      · rw [hown] at hnot
        cases hnot

theorem settled_empty (hcd : cd.Lawful) (h : Stores cd cfg event seq prevHash salt salt' row)
    (hon : cfg.encryptAtRest = true) (hip : ∀ ip, event.ipAddress = some ip → ip = "")
    (hm : event.metadata = .null ∨
      ∀ v, cd.loads (jsonDumps cd.floats event.metadata) = some v → dictOrEmpty v = .dict []) :
    Settled cd cfg.keys row := by
  have haddress : ∀ keys', readAddress cd keys' row.ipAddress = (event.ipAddress, false) := by
    intro keys'
    rw [h.address]
    cases hcase : event.ipAddress with
    | none => rfl
    | some text =>
      rw [hip text hcase]
      rfl
  refine settled_of_reads fun keys' m m' _ hm₁ hm₂ => ⟨by rw [haddress, haddress], ?_⟩
  by_cases hnull : event.metadata = .null
  · rw [settled_null h hnull hm₁ hm₂]
  · have hloads := hm.resolve_left hnull
    have hempty : ∀ keys' m, decryptDecisionFieldLenient cd.toReader keys' row.metadataJson
        (.dict []) = .ok m → dictOrEmpty m = .dict [] := by
      intro keys' m hread
      rw [stored_token h hon hnull] at hread
      rcases lenient_token hcd hread with ⟨-, hl⟩ | ⟨-, rfl⟩
      · exact hloads m hl
      · rfl
    rw [hempty keys' m' hm₂, hempty cfg.keys m hm₁]

theorem legible_settled (hcd : cd.Lawful) (h : Stores cd cfg event seq prevHash salt salt' row)
    (hlegible : Legible cd cfg event) : Settled cd cfg.keys row := by
  grind -ring -linarith [Legible, settled_addressed, settled_empty, settled_plain]

end Storing

/-! ### The chain grows at its end -/

section Chain
variable {rows : List Stored} {row : Stored}

/-- The number and the predecessor that a row behind row `k - 1` has. -/
def Tail (rows : List Stored) (seq : ℕ) (prevHash : String) : Prop :=
  (seq = 1 ∧ prevHash = GENESIS_HASH) ∨
    ∃ i last, rows[i]? = some last ∧ seq = i + 2 ∧ last.hash = some prevHash

variable {seq : ℕ} {prevHash : String}

theorem Tail.append (h : Tail rows seq prevHash)
    (more : List Stored) : Tail (rows ++ more) seq prevHash := by
  rcases h with h | ⟨i, last, hi, hseq, hhash⟩
  · exact .inl h
  · refine .inr ⟨i, last, ?_, hseq, hhash⟩
    grind

theorem Contiguous.mem_seq (h : Contiguous rows) (hrow : row ∈ rows) :
    ∃ i, rows[i]? = some row ∧ row.seq = i + 1 := by
  obtain ⟨i, hi⟩ := List.mem_iff_getElem?.1 hrow
  exact ⟨i, hi, h.seq i row hi⟩

theorem Tail.length (h : Tail rows seq prevHash)
    (hc : Contiguous rows) (hfree : ∀ old ∈ rows, old.seq ≠ seq) : seq = rows.length + 1 := by
  have hlt : ∀ i, i < rows.length → seq ≠ i + 1 := by
    intro i hi heq
    exact hfree rows[i] (List.getElem_mem hi)
      ((hc.seq i _ (List.getElem?_eq_getElem hi)).trans heq.symm)
  rcases h with ⟨rfl, -⟩ | ⟨i, last, hi, rfl, -⟩
  · by_contra hne
    exact hlt 0 (by omega) rfl
  · grind

theorem Contiguous.append (h : Contiguous rows) (htail : Tail rows row.seq row.prevHash)
    (hfree : ∀ old ∈ rows, old.seq ≠ row.seq) : Contiguous (rows ++ [row]) := by
  have hlen := htail.length h hfree
  have hlast : ∀ (i : ℕ) b, (rows ++ [row])[i]? = some b → rows[i]? = some b ∨
      i = rows.length ∧ b = row := by
    intro i b hb
    rcases lt_trichotomy i rows.length with hi | rfl | hi
    · rw [List.getElem?_append_left hi] at hb
      exact .inl hb
    · simp_all
    · grind
  refine ⟨fun i b hb => ?_, fun b hb => ?_, fun i a b ha hb => ?_⟩
  · rcases hlast i b hb with hb | ⟨rfl, rfl⟩
    · exact h.seq i b hb
    · exact hlen
  · rcases hlast 0 b hb with hb | ⟨hzero, rfl⟩
    · exact h.first b hb
    · rcases htail with ⟨-, hprev⟩ | ⟨i, last, hi, -, -⟩
      · exact hprev
      · have := (List.getElem?_eq_some_iff.1 hi).1
        omega
  · rcases hlast (i + 1) b hb with hb | ⟨hi, rfl⟩
    · have hlt := (List.getElem?_eq_some_iff.1 hb).1
      rw [List.getElem?_append_left (by omega)] at ha
      exact h.linked i a b ha hb
    · rw [List.getElem?_append_left (by omega)] at ha
      rcases htail with ⟨hone, -⟩ | ⟨j, last, hj, hseq, hhash⟩
      · omega
      grind

theorem Contiguous.sorted (h : Contiguous rows) :
    rows.insertionSort (fun a b => a.seq ≤ b.seq) = rows := by
  refine List.Pairwise.insertionSort_eq (List.pairwise_iff_getElem.2 fun i j hi hj hij => ?_)
  rw [h.seq i _ (List.getElem?_eq_getElem hi), h.seq j _ (List.getElem?_eq_getElem hj)]
  omega

theorem contiguous_nil : Contiguous [] := ⟨by simp, by simp, by simp⟩

end Chain

/-! ### Every run -/

section Runs
variable {K : Type} {cd : Codec K} {s s' : State K}

@[simp] theorem go_writer (s : State K) (w : ℕ) (ph : Phase) (v : ℕ) :
    (s.go w ph).writer v = if v = w then ph else s.writer v := by
  simp [State.go, Function.update_apply]

/-- The hash of a row is that of what the row reads as, with keys or a flag. -/
def RowOk (cd : Codec K) (row : Stored) : Prop :=
  ∃ hash, row.hash = some hash ∧ hash ≠ "" ∧ ∀ keys dict, auditEventToDict cd keys row = .ok dict →
    dict.metadataUndecryptable = true ∨ computeHash cd.digest dict.toContent = hash

def PhaseOk (s : State K) : Phase → Prop
  | .read event _ seq prevHash => Tail (s.ofTenant event.tenantId) seq prevHash
  | _ => True

structure Inv (cd : Codec K) (s : State K) : Prop where
  contiguous : ∀ tenant, Contiguous (s.ofTenant tenant)
  rows : ∀ row ∈ s.rows, RowOk cd row
  phase : ∀ w, PhaseOk s (s.writer w)

theorem inv_init (config : Config K) : Inv cd (State.init config) where
  contiguous _ := contiguous_nil
  rows _ h := by cases h
  phase _ := trivial

variable {w : ℕ} {row : Stored} {b : Break} {r : Row} {digest : String → String} {expected found :
  String}

theorem Inv.move (hi : Inv cd s) {ph : Phase} (hph : PhaseOk s ph) : Inv cd (s.go w ph) where
  contiguous := hi.contiguous
  rows := hi.rows
  phase v := by
    rw [go_writer]
    split
    · exact hph
    · exact hi.phase v

theorem Inv.retry (hi : Inv cd s) (w : ℕ) (event : Event) (attempt : ℕ) :
    Inv cd (s.retry w event attempt) := by
  refine hi.move ?_
  split <;> trivial

theorem Inv.tail (hi : Inv cd s) (tenant : String) :
    Tail (s.ofTenant tenant) (behind ((s.ofTenant tenant).argmax Stored.seq)).1
      (behind ((s.ofTenant tenant).argmax Stored.seq)).2 := by
  cases hmax : (s.ofTenant tenant).argmax Stored.seq with
  | none => exact .inl ⟨rfl, rfl⟩
  | some last =>
    have hmem := List.argmax_mem hmax
    obtain ⟨i, hi', hseq⟩ := (hi.contiguous tenant).mem_seq hmem
    obtain ⟨hash, hhash, hne, -⟩ := hi.rows last (List.mem_of_mem_filter hmem)
    refine .inr ⟨i, last, hi', ?_, ?_⟩
    · show last.seq + 1 = i + 2
      omega
    · show last.hash = some (((some last).bind Stored.hash).filter _ |>.getD _)
      grind

theorem ofTenant_append (s : State K) (row : Stored) (w : ℕ) (ph : Phase) (tenant : String) :
    ({ s with rows := s.rows ++ [row] }.go w ph).ofTenant tenant =
      s.ofTenant tenant ++ if row.tenantId = tenant then [row] else [] := by
  show (s.rows ++ [row]).filter _ = s.rows.filter _ ++ _
  simp [List.filter_append, List.filter_singleton]

theorem Inv.commit (hi : Inv cd s) (hrow : RowOk cd row)
    (htail : Tail (s.ofTenant row.tenantId) row.seq row.prevHash) (haccept : s.Accepts row) :
    Inv cd ({ s with rows := s.rows ++ [row] }.go w .idle) where
  contiguous tenant := by
    rw [ofTenant_append]
    split
    · next heq =>
      subst heq
      refine (hi.contiguous _).append htail fun old hold hseq => ?_
      obtain ⟨hmem, htenant⟩ := List.mem_filter.1 hold
      exact (haccept old hmem).2 ⟨of_decide_eq_true htenant, hseq⟩
    · rw [List.append_nil]
      exact hi.contiguous tenant
  rows r hr := by
    rcases List.mem_append.1 hr with hr | hr
    · exact hi.rows r hr
    · rw [List.mem_singleton.1 hr]
      exact hrow
  phase v := by
    rw [go_writer]
    split
    · trivial
    · have hph := hi.phase v
      cases hv : s.writer v with
      | read event attempt seq prevHash =>
        rw [hv] at hph
        show Tail _ _ _
        rw [ofTenant_append]
        exact hph.append _
      | _ => trivial

theorem rowOk_hashed (hcd : cd.Lawful) {keys : K} {dict : Row}
    (hsettled : Settled cd keys row) (hread : auditEventToDict cd keys row = .ok dict) :
    RowOk cd { row with hash := some (computeHash cd.digest dict.toContent) } := by
  refine ⟨_, rfl, hcd.digest _, fun keys' dict' hd' => ?_⟩
  -- the hash is no part of what is chained
  obtain ⟨dict₀, hd₀, hcontent, hflag⟩ : ∃ dict₀, auditEventToDict cd keys' row = .ok dict₀ ∧
      dict₀.toContent = dict'.toContent ∧
      dict₀.metadataUndecryptable = dict'.metadataUndecryptable := by
    obtain ⟨read, hm, rfl⟩ := map_eq_ok.1 hd'
    exact ⟨_, map_eq_ok.2 ⟨read, hm, rfl⟩, rfl, rfl⟩
  rw [← hcontent, ← hflag]
  rcases hsettled keys' dict dict₀ hread hd₀ with h | h
  · exact .inl h
  · exact .inr (by rw [h])

theorem Inv.step (hcd : cd.Lawful) (hi : Inv cd s) {a : Act K} (hok : Recorded cd s a)
    (hs : step cd s a = some s') : Inv cd s' := by
  cases a with
  | configure config =>
    cases hs
    exact ⟨hi.contiguous, hi.rows, hi.phase⟩
  | call w event =>
    simp only [Appends.step] at hs
    split at hs
    · cases hs
      exact hi.move trivial
    · cases hs
  | readTail w =>
    simp only [Appends.step] at hs
    split at hs
    · next event attempt hw =>
      cases hs
      exact hi.move (hi.tail event.tenantId)
    · cases hs
  | insert w id createdAt salt salt' =>
    simp only [Appends.step] at hs
    split at hs
    · next event attempt seq prevHash hw =>
      split at hs
      · cases hs
        exact hi.retry w event attempt
      · next row hrow =>
        have hstores := newRow_stores hrow
        split at hs
        · next haccept =>
          split at hs
          · next dict hdict =>
            cases hs
            have hsettled := legible_settled hcd hstores (hok event attempt seq prevHash hw)
            have htail := hi.phase w
            rw [hw] at htail
            refine hi.commit (rowOk_hashed hcd hsettled hdict) ?_ haccept
            show Tail (s.ofTenant row.tenantId) row.seq row.prevHash
            rw [hstores.tenantId, hstores.seq, hstores.prevHash]
            exact htail
          · cases hs
            exact hi.move trivial
        · cases hs
          exact hi.retry w event attempt
    · cases hs

theorem inv_reach (hcd : cd.Lawful) {config : Config K}
    (h : Reach (step cd) (Recorded cd) (State.init config) s) : Inv cd s :=
  h.invariant (inv_init config) fun _ _ _ hi hok hs => hi.step hcd hok hs

/-! ### What verification reports -/

theorem linkBreaks_reason {w : Walk} (h : b ∈ linkBreaks w r)
    (expected found : String) : b.reason ≠ .contentHashMismatch expected found := by
  rintro hb
  unfold linkBreaks at h
  split at h
  · rcases List.mem_append.1 h with h | h
    · split at h
      · rw [List.mem_singleton.1 h] at hb
        cases hb
      · cases h
    · split at h
      · split at h
        · rw [List.mem_singleton.1 h] at hb
          cases hb
        · cases h
      · cases h
  · split at h
    · rw [List.mem_singleton.1 h] at hb
      cases hb
    · cases h

theorem contentBreaks_reason {stored : String} (hb : b.reason = .contentHashMismatch expected found)
    (h : b ∈ contentBreaks digest r stored) :
    r.metadataUndecryptable = false ∧ computeHash digest r.toContent ≠ stored := by
  unfold contentBreaks at h
  split at h
  · rw [List.mem_singleton.1 h] at hb
    cases hb
  · simp_all

theorem mismatch_of_break
    (hb : b.reason = .contentHashMismatch expected found) (rows : List Row) : ∀ w : Walk,
    b ∈ (rows.foldl (walk digest) w).breaks → b ∈ w.breaks ∨
      ∃ r ∈ rows, ∃ stored, r.stored = some stored ∧ r.metadataUndecryptable = false ∧
        computeHash digest r.toContent ≠ stored := by
  induction rows with
  | nil => exact fun w h => .inl h
  | cons r rows ih =>
    intro w h
    rcases ih (walk digest w r) h with h | ⟨q, hq, hbad⟩
    · unfold walk at h
      split at h
      · split at h
        · rcases List.mem_append.1 h with h | h
          · exact .inl h
          · rw [List.mem_singleton.1 h] at hb
            cases hb
        · exact .inl h
      · next stored hstored =>
        simp only [List.mem_append, or_assoc] at h
        grind [linkBreaks_reason, List.mem_cons_self, contentBreaks_reason]
    · exact .inr ⟨q, List.mem_cons_of_mem _ hq, hbad⟩

theorem Inv.verifies (hi : Inv cd s) : Verifies cd s where
  contiguous tenant := by
    rw [State.auditRows, (hi.contiguous tenant).sorted]
    exact hi.contiguous tenant
  matching keys tenant limit report hreport b hb expected found hreason := by
    obtain ⟨events, hevents, rfl⟩ := map_eq_ok.1 hreport
    rcases mismatch_of_break hreason events Walk.init hb with hnil | ⟨r, hr, stored, hstored, hbad⟩
    · cases hnil
    · obtain ⟨row, hrow, hread⟩ := (mapM_mem hevents).2 r hr
      have hmem : row ∈ s.auditRows tenant := by
        split at hrow
        · exact List.mem_of_mem_take hrow
        · exact hrow
      have hmem := List.mem_of_mem_filter ((List.mem_insertionSort _).1 hmem)
      obtain ⟨hash, hhash, hne, hkeeps⟩ := hi.rows row hmem
      obtain ⟨-, -, -, heq, -⟩ := auditEventToDict_ok hread
      have hstored' : r.stored = some hash := by
        rw [Row.stored, heq, hhash, Option.filter_some, if_pos (decide_eq_true hne)]
      grind

end Runs

/-- **An honest chain verifies.**  In every run of any number of writers and any changes of the
    configuration in which each event that is stored is legible, the rows of a tenant are
    numbered from 1 and linked without a gap, and with no keys does the verification report that
    the content of a row does not match. -/
theorem chain_verifies {K : Type} {cd : Codec K} (hcd : cd.Lawful) (config : Config K) {s : State K}
    (h : Reach (step cd) (Recorded cd) (State.init config) s) : Verifies cd s :=
  (inv_reach hcd h).verifies

/-! ### Two keys -/

def target : Value := .dict [("target", .str "PROD")]

/-- An event as a process hashes it that reads this metadata. -/
def hashed (metadata : Json) : Content :=
  ⟨some "e1", some "t", some "promoted", none, none, some "", metadata, none, none,
    some "2024-01-01T00:00:00Z", some 1, some GENESIS_HASH⟩

def readable : Content := hashed (.obj [("target", .str "PROD")])
def unreadable : Content := hashed (.obj [])

def readableHash : String := "80e6387d4ba3f1d6793178622b503889929a52945330744e44492bfe2b8bea00"
def unreadableHash : String := "4e47b7ca293beec0173e40122ba906d23443d9a8fd0ba43a63ab0c473c4d4a61"

def keyMark (rotated : Bool) : Char := if rotated then 'B' else 'C'

def sha256 (text : String) : String :=
  if text = canonicalPayload readable then readableHash else unreadableHash

/-- Two keys, each of which opens its own tokens, and what else the two events need. -/
def twoKeys : Codec Bool where
  encrypt rotated _ text := String.ofList ("gAAAAA".toList ++ keyMark rotated :: text.toList)
  decrypt rotated token :=
    if looksEncrypted token ∧ (token.toList.drop 6).head? = some (keyMark rotated) then
      some (String.ofList (token.toList.drop 7))
    else none
  loads _ := some target
  isoformat _ := "2024-01-01T00:00:00"
  floats := PolicyDiff.decimalFloats
  digest := sha256

theorem sha256_ne (text : String) : sha256 text ≠ "" := by
  rw [sha256]
  split <;> decide +kernel

theorem twoKeys_digest : twoKeys.digest = sha256 := by
  rw [twoKeys]

theorem twoKeys_lawful : twoKeys.Lawful where
  token _ _ _ := by simp [twoKeys, looksEncrypted]
  opens _ _ _ := by simp [twoKeys, looksEncrypted]
  agree keys keys' token text text' h h' := by simp_all [twoKeys]
  sameKeys keys keys' _ _ _ _ := by
    by_cases hk : keyMark keys = keyMark keys' <;> simp [twoKeys, looksEncrypted, hk]
  digest text := by
    rw [twoKeys_digest]
    exact sha256_ne text

theorem computeHash_readable : computeHash sha256 readable = readableHash := by
  rw [computeHash, sha256, if_pos rfl]

theorem computeHash_unreadable : computeHash sha256 unreadable = unreadableHash := by
  rw [computeHash, sha256, if_neg]
  intro hp
  have hs := canonicalPayload_inj.1 hp
  rw [Content.Same, Content.mk.injEq] at hs
  have hmetadata : (Json.obj []).norm = (Json.obj [("target", .str "PROD")]).norm :=
    hs.2.2.2.2.2.2.1
  simp [Json.norm, Json.normFields, Json.sortKeys] at hmetadata

theorem mismatch_reported {digest : String → String} {r : Row} {stored : String}
    (hs : r.stored = some stored) (hflag : r.metadataUndecryptable = false)
    (hne : computeHash digest r.toContent ≠ stored) :
    r.broken (.contentHashMismatch (computeHash digest r.toContent) stored) ∈
      (verify digest [r]).breaks := by
  simp [verify, walk, hs, contentBreaks, hflag, hne]

def promoted (ip : Option String) : Event :=
  ⟨"t", some "promoted", none, none, some "", target, none, ip⟩

def oneEvent : Stored where
  id := "e1"
  tenantId := "t"
  eventType := "promoted"
  entityType := none
  entityId := none
  detail := ""
  metadataJson := .str (twoKeys.encrypt false 0 (jsonDumps twoKeys.floats target))
  userId := none
  ipAddress := none
  createdAt := 0
  seq := 1
  prevHash := GENESIS_HASH
  hash := some (computeHash twoKeys.digest readable)

/-- **Accused of tampering.**  An event is recorded with metadata and no address; after the key
    was changed the metadata reads as empty, and the row, which nobody has modified, is reported
    as one whose content does not match. -/
theorem rotated_key_accused : ∃ s, Reachable (step twoKeys) (State.init ⟨false, true⟩) s ∧
    s.rows = [oneEvent] ∧ s.config = ⟨true, true⟩ ∧
    (∃ report b, verifyAuditChain twoKeys s s.config.keys "t" none = .ok report ∧
      b ∈ report.breaks ∧ b.reason = .contentHashMismatch unreadableHash readableHash) ∧
    ¬ Verifies twoKeys s := by
  obtain ⟨s, hs, hrows, hconfig⟩ : ∃ s, exec (step twoKeys) (State.init ⟨false, true⟩)
      [.call 0 (promoted none), .readTail 0, .insert 0 "e1" 0 0 0, .configure ⟨true, true⟩] =
        some s ∧ s.rows = [oneEvent] ∧ s.config = ⟨true, true⟩ :=
    ⟨_, rfl, rfl, rfl⟩
  have haudit : s.auditRows "t" = [oneEvent] := by
    rw [State.auditRows, State.ofTenant, hrows]
    rfl
  have hreport : verifyAuditChain twoKeys s true "t" none =
      .ok (verify sha256 [⟨unreadable, oneEvent.hash, false⟩]) := by
    unfold verifyAuditChain
    rw [haudit, twoKeys_digest]
    rfl
  have hstored : Row.stored ⟨unreadable, oneEvent.hash, false⟩ = some readableHash := by
    rw [Row.stored, oneEvent, twoKeys_digest, computeHash_readable]
    rfl
  have hb := mismatch_reported hstored rfl (by
    rw [computeHash_unreadable]
    decide +kernel)
  have hreason : (Row.broken ⟨unreadable, oneEvent.hash, false⟩ (.contentHashMismatch
      (computeHash sha256 unreadable) readableHash)).reason =
        .contentHashMismatch unreadableHash readableHash := by
    rw [computeHash_unreadable]
    rfl
  refine ⟨s, reachable_exec hs, hrows, hconfig, ⟨_, _, ?_, hb, hreason⟩, fun h => ?_⟩
  · rw [hconfig]
    exact hreport
  · exact h.matching true "t" none _ hreport _ hb _ _ rfl

/-- Two writers read the same tail, and one of them has to read it again. -/
def race : List (Act Bool) :=
  [.call 0 (promoted (some "10.0.0.1")), .call 1 (promoted (some "10.0.0.1")), .readTail 0,
    .readTail 1, .insert 0 "e1" 0 0 0, .configure ⟨true, true⟩, .insert 1 "e2" 0 0 0,
    .readTail 1, .insert 1 "e2" 0 0 0]

/-- With an address the events are legible, and the chain verifies under either key. -/
theorem addressed_verifies : ∃ s, Reach (step twoKeys) (Recorded twoKeys)
    (State.init ⟨false, true⟩) s ∧ s.rows.length = 2 ∧ Verifies twoKeys s := by
  have hlegible : ∀ keys, Legible twoKeys ⟨keys, true⟩ (promoted (some "10.0.0.1")) :=
    fun _ => .inl ⟨_, rfl, by decide⟩
  have halong : Along (step twoKeys) (Recorded twoKeys) (State.init ⟨false, true⟩) race := by
    refine .cons trivial rfl (.cons trivial rfl (.cons trivial rfl (.cons trivial rfl
      (.cons ?_ rfl (.cons trivial rfl (.cons ?_ rfl (.cons trivial rfl (.cons ?_ rfl
        trivial))))))))
    all_goals
      intro event attempt seq prevHash h
      cases h
      exact hlegible _
  obtain ⟨s, hs, hlength⟩ : ∃ s, exec (step twoKeys) (State.init ⟨false, true⟩) race = some s ∧
      s.rows.length = 2 := ⟨_, rfl, rfl⟩
  have hreach := reach_exec hs halong
  exact ⟨s, hreach, hlength, chain_verifies twoKeys_lawful _ hreach⟩

end RuleMind.Appends
