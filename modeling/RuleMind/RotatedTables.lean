/-
  The encrypted tables that the key rotation rewrites: tokens and the keys they
  are under, the workers that re-encrypt a page of rows, and what writers and
  commits do to a table.

  A Fernet token stands for the key that made it and the plaintext, and opens
  under that key only.
-/
import RuleMind.Lib.Keyset
import RuleMind.Lib.Raises
import Mathlib.Data.String.Basic
import Mathlib.Data.List.ReduceOption

namespace RuleMind.KeyRotation

open Lib

/-! ## Keys and tokens -/

/-- A Fernet key: `_derive_key` or `_legacy_sha256_key` of a secret. -/
inductive FernetKey where
  | derived (secret : String)
  | legacySha256 (secret : String)
  deriving DecidableEq

/-- `_config_key_secrets()`: the primary secret and the previous ones. -/
structure Secrets where
  primary : String
  olds : List String
  deriving DecidableEq

/-- `fernet_key()`. -/
def Secrets.fernetKey (secrets : Secrets) : FernetKey := .derived secrets.primary

/-- `crypto()`: the keys of the chain, in the order in which they are tried. -/
def Secrets.crypto (secrets : Secrets) : List FernetKey :=
  [FernetKey.derived secrets.primary, .legacySha256 secrets.primary] ++
    secrets.olds.flatMap fun old => [FernetKey.derived old, .legacySha256 old]

/-- What a cell holds: NULL or an absent key, a text (or bytes) that is not a
    token, a token, or a JSON value that is no text. -/
inductive Stored where
  | null
  | text (value : String)
  | token (key : FernetKey) (plaintext : String)
  | other (json : String)
  deriving DecidableEq

inductive Plain where
  | null
  | text (value : String)
  | secret (plaintext : String)
  | other (json : String)
  deriving DecidableEq

def Stored.plain : Stored → Plain
  | .null => .null
  | .text value => .text value
  | .token _ plaintext => .secret plaintext
  | .other json => .other json

inductive InvalidToken where
  | invalidToken
  deriving DecidableEq

/-- `crypto().encrypt`: the first key of the chain. -/
def encrypt (secrets : Secrets) (plaintext : String) : Stored := .token secrets.fernetKey plaintext

/-- `crypto().decrypt`. -/
def decrypt (secrets : Secrets) : Stored → Except InvalidToken String
  | .token key plaintext => if key ∈ secrets.crypto then .ok plaintext else .error .invalidToken
  | _ => .error .invalidToken

def FERNET_PREFIX : String := "gAAAAA"

/-- `_already_rotated`: the value opens under the primary key alone, or is no
    ciphertext. -/
def alreadyRotated (secrets : Secrets) : Stored → Bool
  | .null | .other _ => true
  | .text value => !FERNET_PREFIX.toList.isPrefixOf value.toList
  | .token key _ => key = secrets.fernetKey

/-- `_reencrypt_text`, and `_reencrypt_blob`, which does the same to bytes;
    `none` means that the value is left alone. -/
def reencrypt (secrets : Secrets) (value : Stored) : Except InvalidToken (Option Stored) :=
  if value = .null ∨ value = .text "" ∨ alreadyRotated secrets value then .ok none
  else do
    let plaintext ← decrypt secrets value
    .ok (some (encrypt secrets plaintext))

/-- A token is under the key `K`. -/
def Stored.Under (K : FernetKey) (value : Stored) : Prop :=
  ∀ key plaintext, value = .token key plaintext → key = K

@[simp] theorem encrypt_under (secrets : Secrets) (plaintext : String) :
    (encrypt secrets plaintext).Under secrets.fernetKey := by
  intro key p h
  injection h with hkey _
  exact hkey.symm

variable {secrets : Secrets} {value : Stored}

theorem alreadyRotated_under
    (h : alreadyRotated secrets value = true) : value.Under secrets.fernetKey := by
  rintro key plaintext rfl
  exact of_decide_eq_true h

theorem decrypt_ok {plaintext : String}
    (h : decrypt secrets value = .ok plaintext) : value.plain = .secret plaintext := by
  cases value with
  | token key p =>
    simp only [decrypt] at h
    split at h
    · cases h
      rfl
    · cases h
  | null | text | other => cases h

theorem reencrypt_none
    (h : reencrypt secrets value = .ok none) : value.Under secrets.fernetKey := by
  rw [reencrypt] at h
  split at h
  · next hskip =>
    obtain rfl | rfl | hrotated := hskip
    · rintro _ _ ⟨⟩
    · rintro _ _ ⟨⟩
    · exact alreadyRotated_under hrotated
  · cases hd : decrypt secrets value with
    | error e => rw [hd] at h; cases h
    | ok p => rw [hd] at h; cases h

theorem reencrypt_some {value' : Stored} (h : reencrypt secrets value = .ok (some value')) :
    value'.Under secrets.fernetKey ∧ value'.plain = value.plain := by
  rw [reencrypt] at h
  split at h
  · cases h
  · cases hd : decrypt secrets value with
    | error e => rw [hd] at h; cases h
    | ok p =>
      rw [hd] at h
      cases h
      exact ⟨encrypt_under secrets p, (decrypt_ok hd).symm⟩

/-! ## Tables, rows and the workers -/

inductive Table where
  | connectors
  | tenants
  | settings
  | webhooks
  | hostedModels
  | auditEvents
  | decisions
  deriving DecidableEq

/-- `TABLES`: the order of a run. -/
def TABLES : List Table :=
  [.connectors, .tenants, .settings, .webhooks, .hostedModels, .auditEvents, .decisions]

theorem mem_TABLES (t : Table) : t ∈ TABLES := by
  cases t <;> decide

/-- The places of a table's row that hold ciphertext. -/
inductive Column : Table → Type where
  | encryptedConfig : Column .connectors
  /-- `config.email.password_encrypted` -/
  | passwordEncrypted : Column .tenants
  /-- `config.sso.client_secret_encrypted` -/
  | clientSecretEncrypted : Column .tenants
  /-- `ai_config.providers.<provider>.key_encrypted` -/
  | keyEncrypted (provider : String) : Column .settings
  | secretHash : Column .webhooks
  | modelBlob : Column .hostedModels
  | metadataJson : Column .auditEvents
  | ipAddress : Column .auditEvents
  | payloadPreview : Column .decisions
  | computedVariables : Column .decisions
  | ruleResults : Column .decisions
  | scorecardResult : Column .decisions
  | trace : Column .decisions
  deriving DecidableEq

/-- The column of the database a place is in: a JSON column is written whole. -/
def Column.attribute {t : Table} : Column t → String
  | .encryptedConfig => "encrypted_config"
  | .passwordEncrypted | .clientSecretEncrypted => "config"
  | .keyEncrypted _ => "ai_config"
  | .secretHash => "secret_hash"
  | .modelBlob => "model_blob"
  | .metadataJson => "metadata_json"
  | .ipAddress => "ip_address"
  | .payloadPreview => "payload_preview"
  | .computedVariables => "computed_variables"
  | .ruleResults => "rule_results"
  | .scorecardResult => "scorecard_result"
  | .trace => "trace"

abbrev Cells (t : Table) : Type := List (Column t × Stored)

structure Row (t : Table) where
  pk : String
  cells : Cells t
  deriving DecidableEq

/-- The rows of a table, each with a primary key of its own. -/
structure Contents (t : Table) where
  rows : List (Row t)
  unique : (rows.map Row.pk).Nodup

abbrev Database : Type := (t : Table) → Contents t

/-- A row as rewritten: its cells after the rewriting, and the places where
    the rewriting changed something. -/
structure Update (t : Table) where
  pk : String
  cells : Cells t
  touched : List (Column t)
  deriving DecidableEq

/-- What a worker makes of one page: the rows it rewrote and `rows[-1].pk`. -/
structure Page (t : Table) where
  updates : List (Update t)
  last : Option String
  deriving DecidableEq

section
variable {t : Table} (secrets : Secrets) (rotates : Column t → Bool)

/-- One cell: `none` when it is left alone. -/
def rotateCell (cell : Column t × Stored) : Except InvalidToken (Option Stored) :=
  if rotates cell.1 then reencrypt secrets cell.2 else .ok none

/-- The cells after the rewriting, and the places where it changed them. -/
def rotateCells : Cells t → Except InvalidToken (Cells t × List (Column t))
  | [] => .ok ([], [])
  | cell :: rest => do
    let rotated ← rotateCell secrets rotates cell
    let (cells, touched) ← rotateCells rest
    .ok (rotated.elim (cell :: cells, touched) fun value =>
      ((cell.1, value) :: cells, cell.1 :: touched))

/-- The loop body of a worker: `none` when the row is left alone. -/
def rotateRow (row : Row t) : Except InvalidToken (Option (Update t)) := do
  let rotated ← rotateCells secrets rotates row.cells
  .ok (if rotated.2 = [] then none else some ⟨row.pk, rotated.1, rotated.2⟩)

/-- A worker on the page after `after`. -/
def rotateTable (rows : List (Row t)) (after : Option String) (limit : ℕ) :
    Except InvalidToken (Page t) := do
  let page := window Row.pk after limit rows
  let updates ← page.mapM (rotateRow secrets rotates)
  .ok ⟨updates.reduceOption, page.getLast?.map Row.pk⟩

end

def rotateConnectors (secrets : Secrets) := rotateTable secrets fun | .encryptedConfig => true

/-- `_rotate_tenants`: two places of `config`. -/
def rotateTenants (secrets : Secrets) :=
  rotateTable secrets fun | .passwordEncrypted => true | .clientSecretEncrypted => true

/-- `_rotate_settings`: every provider of `ai_config`. -/
def rotateSettings (secrets : Secrets) := rotateTable secrets fun | .keyEncrypted _ => true

def rotateWebhooks (secrets : Secrets) := rotateTable secrets fun | .secretHash => true

def rotateModels (secrets : Secrets) := rotateTable secrets fun | .modelBlob => true

def rotateAuditEvents (secrets : Secrets) :=
  rotateTable secrets fun column => [Column.metadataJson, Column.ipAddress].contains column

/-- `_DECISION_COLUMNS`. -/
def DECISION_COLUMNS : List (Column .decisions) :=
  [.payloadPreview, .computedVariables, .ruleResults, .scorecardResult, .trace]

def rotateDecisions (secrets : Secrets) :=
  rotateTable secrets fun column => DECISION_COLUMNS.contains column

/-- The worker of a table in `TABLES`. -/
def worker (secrets : Secrets) : (t : Table) → List (Row t) → Option String → ℕ →
    Except InvalidToken (Page t)
  | .connectors => rotateConnectors secrets
  | .tenants => rotateTenants secrets
  | .settings => rotateSettings secrets
  | .webhooks => rotateWebhooks secrets
  | .hostedModels => rotateModels secrets
  | .auditEvents => rotateAuditEvents secrets
  | .decisions => rotateDecisions secrets

/-- **Every worker rotates every encrypted place of its table.** -/
theorem worker_eq (secrets : Secrets) (t : Table) :
    worker secrets t = rotateTable secrets fun _ => true := by
  cases t <;> refine congrArg (rotateTable secrets) (funext fun column => ?_) <;>
    cases column <;> rfl

def plainCells {t : Table} (cells : Cells t) : List (Column t × Plain) :=
  cells.map fun cell => (cell.1, cell.2.plain)

/-- An update writes the attribute that a place is in. -/
def Update.Writes {t : Table} (update : Update t) (column : Column t) : Prop :=
  ∃ touched ∈ update.touched, touched.attribute = column.attribute

instance {t : Table} (update : Update t) (column : Column t) : Decidable (update.Writes column) :=
  inferInstanceAs (Decidable (∃ touched ∈ update.touched, touched.attribute = column.attribute))

section
variable {t : Table} {secrets : Secrets}

/-- The rewriting changes no plaintext, leaves no token under another key, and
    names every place where there was one. -/
theorem rotateCells_ok {cells cells' : Cells t} {touched : List (Column t)}
    (h : rotateCells secrets (fun _ => true) cells = .ok (cells', touched)) :
    plainCells cells' = plainCells cells ∧ (∀ cell ∈ cells', cell.2.Under secrets.fernetKey) ∧
      ∀ cell ∈ cells, ¬ cell.2.Under secrets.fernetKey → cell.1 ∈ touched := by
  induction cells generalizing cells' touched with
  | nil =>
    cases h
    simp
  | cons cell rest ih =>
    obtain ⟨rotated, hcell, h⟩ := bind_eq_ok.1 h
    obtain ⟨⟨cells, columns⟩, hrest, h⟩ := bind_eq_ok.1 h
    obtain ⟨hplain, hunder, hnamed⟩ := ih hrest
    simp only [rotateCell, if_true] at hcell
    cases rotated with
    | none =>
      cases h
      have hhead := reencrypt_none hcell
      refine ⟨congrArg (_ :: ·) hplain, List.forall_mem_cons.2 ⟨hhead, hunder⟩, ?_⟩
      grind
    | some value =>
      cases h
      obtain ⟨hhead, hsame⟩ := reencrypt_some hcell
      refine ⟨?_, List.forall_mem_cons.2 ⟨hhead, hunder⟩, List.forall_mem_cons.2 ⟨?_, ?_⟩⟩
      · exact congrArg₂ List.cons (congrArg (Prod.mk cell.1) hsame) hplain
      · exact fun _ => List.mem_cons_self
      grind

variable {row : Row t} {update : Update t} {after : Option String} {limit : ℕ} {page : Page t}

theorem rotateRow_none (h : rotateRow secrets (fun _ => true) row = .ok none) :
    ∀ cell ∈ row.cells, cell.2.Under secrets.fernetKey := by
  obtain ⟨rotated, hcells, h⟩ := bind_eq_ok.1 h
  intro cell hmem
  by_contra hnot
  have hnamed := (rotateCells_ok hcells).2.2 cell hmem hnot
  rw [if_neg (List.ne_nil_of_mem hnamed)] at h
  cases h

theorem rotateRow_some (h : rotateRow secrets (fun _ => true) row = .ok (some update)) :
    update.pk = row.pk ∧ plainCells update.cells = plainCells row.cells ∧
      (∀ cell ∈ update.cells, cell.2.Under secrets.fernetKey) ∧
      ∀ cell ∈ row.cells, ¬ cell.2.Under secrets.fernetKey → update.Writes cell.1 := by
  obtain ⟨rotated, hcells, h⟩ := bind_eq_ok.1 h
  obtain ⟨hplain, hunder, hnamed⟩ := rotateCells_ok hcells
  by_cases hnil : rotated.2 = []
  · rw [if_pos hnil] at h
    cases h
  · rw [if_neg hnil] at h
    cases h
    exact ⟨rfl, hplain, hunder, fun cell hmem hnot => ⟨cell.1, hnamed cell hmem hnot, rfl⟩⟩

theorem worker_update {rows : List (Row t)} (h : worker secrets t rows after limit = .ok page)
    (hupdate : update ∈ page.updates) :
    ∃ row ∈ rows, rotateRow secrets (fun _ => true) row = .ok (some update) := by
  rw [worker_eq] at h
  obtain ⟨updates, hrows, h⟩ := bind_eq_ok.1 h
  cases h
  rw [List.reduceOption_mem_iff] at hupdate
  obtain ⟨row, hrow, hrotated⟩ := (mapM_mem hrows).2 _ hupdate
  exact ⟨row, (mem_window hrow).1, hrotated⟩

/-- **A page leaves out nothing up to its last row.**  Of the rows past the
    cursor, a place under another key is written by the page or comes after it. -/
theorem worker_covers {contents : Contents t}
    (hlimit : limit ≠ 0) (h : worker secrets t contents.rows after limit = .ok page)
    (hrow : row ∈ contents.rows) (hpast : Past after row.pk)
    {cell : Column t × Stored} (hcell : cell ∈ row.cells)
    (hnot : ¬ cell.2.Under secrets.fernetKey) :
    (∃ update ∈ page.updates, update.pk = row.pk ∧ update.Writes cell.1) ∨
      ∃ last ∈ page.last, last < row.pk := by
  rw [worker_eq] at h
  obtain ⟨updates, hrows, h⟩ := bind_eq_ok.1 h
  cases h
  cases hlast : (window Row.pk after limit contents.rows).getLast? with
  | none => grind [List.getLast?_eq_none_iff, window_eq_nil]
  | some last =>
    obtain hle | hlt := le_or_gt row.pk last.pk
    · left
      obtain ⟨row', hread, hpk⟩ := window_covers hlast hrow hpast hle
      have hsame : row' = row :=
        List.inj_on_of_nodup_map contents.unique (mem_window hread).1 hrow hpk
      rw [hsame] at hread
      obtain ⟨rotated, hmem, hrotated⟩ := (mapM_mem hrows).1 row hread
      cases rotated with
      | none => exact absurd (rotateRow_none hrotated cell hcell) hnot
      | some update =>
        obtain ⟨hpk, -, -, hwrites⟩ := rotateRow_some hrotated
        grind [List.reduceOption_mem_iff]
    · exact .inr ⟨last.pk, rfl, hlt⟩

end

/-! ## The database -/

/-- What a writer stores: secrets are encrypted under the primary key. -/
def Plain.stored (secrets : Secrets) : Plain → Stored
  | .null => .null
  | .text value => .text value
  | .secret plaintext => encrypt secrets plaintext
  | .other json => .other json

@[simp] theorem stored_under (secrets : Secrets) (plain : Plain) :
    (plain.stored secrets).Under secrets.fernetKey := by
  cases plain with
  | secret plaintext => exact encrypt_under secrets plaintext
  | null | text | other => rintro _ _ ⟨⟩

section
variable {t : Table}

/-- The row with these cells in place of what stood there. -/
def Row.put (cells : Cells t) (row : Row t) : Row t :=
  { row with cells := row.cells.filter (fun cell => cell.1 ∉ cells.map Prod.fst) ++ cells }

/-- `UPDATE … WHERE pk = …`, with every attribute in which something changed. -/
def Update.apply (update : Update t) (row : Row t) : Row t :=
  if row.pk = update.pk then
    { row with cells := row.cells.filter (fun cell => ¬ update.Writes cell.1) ++
        update.cells.filter fun cell => update.Writes cell.1 }
  else row

theorem Update.apply_pk (update : Update t) (row : Row t) : (update.apply row).pk = row.pk := by
  rw [Update.apply]
  split <;> rfl

namespace Contents
variable (contents : Contents t)

def pks : List String := contents.rows.map Row.pk

/-- The rows changed one by one, their primary keys kept. -/
def mapRows (f : Row t → Row t) (hpk : ∀ row, (f row).pk = row.pk) : Contents t where
  rows := contents.rows.map f
  unique := by
    rw [List.map_map, show Row.pk ∘ f = Row.pk from funext hpk]
    exact contents.unique

/-- A writer stores cells of a row, which is inserted when there is none. -/
def store (pk : String) (cells : Cells t) : Contents t :=
  if h : pk ∈ contents.pks then
    contents.mapRows (fun row => if row.pk = pk then row.put cells else row)
      fun row => by split <;> rfl
  else
    { rows := contents.rows ++ [⟨pk, cells⟩]
      unique := by
        rw [List.map_append, List.nodup_append]
        refine ⟨contents.unique, List.nodup_singleton _, ?_⟩
        rintro pk' hpk' _ hmem rfl
        have heq : pk' = pk := List.mem_singleton.1 hmem
        exact h (heq ▸ hpk') }

def remove (pk : String) : Contents t where
  rows := contents.rows.filter fun row => row.pk ≠ pk
  unique := (List.filter_sublist.map Row.pk).nodup contents.unique

def write (update : Update t) : Contents t := contents.mapRows update.apply update.apply_pk

/-- The commit of a page; it fails when a row that it updates is gone. -/
def commit (updates : List (Update t)) : Option (Contents t) :=
  if ∀ update ∈ updates, update.pk ∈ contents.pks then some (updates.foldl write contents)
  else none

/-- A row of the table has this value in this place. -/
def Holds (pk : String) (column : Column t) (value : Stored) : Prop :=
  ∃ row ∈ contents.rows, row.pk = pk ∧ (column, value) ∈ row.cells

/-- What the table says, whatever keys its tokens are under. -/
def plaintexts : Set (String × Column t × Plain) :=
  {x | ∃ value, contents.Holds x.1 x.2.1 value ∧ value.plain = x.2.2}

/-- The places with a token under another key than `K`. -/
def left (K : FernetKey) : Set (String × Column t) :=
  {x | ∃ value, contents.Holds x.1 x.2 value ∧ ¬ value.Under K}

variable {contents}

variable {pk pk' : String} {column : Column t} {cells : Cells t} {value : Stored} {update : Update
  t}

theorem holds_store (h : (contents.store pk cells).Holds pk' column value) :
    contents.Holds pk' column value ∨ (column, value) ∈ cells := by
  obtain ⟨row, hrow, rfl, hcell⟩ := h
  rw [store] at hrow
  split at hrow
  · obtain ⟨row, hmem, rfl⟩ := List.mem_map.1 hrow
    split at hcell
    · next hpk =>
      obtain hcell | hcell := List.mem_append.1 hcell
      · exact .inl ⟨row, hmem, by rw [if_pos hpk]; rfl, List.mem_of_mem_filter hcell⟩
      · exact .inr hcell
    · next hpk => exact .inl ⟨row, hmem, by rw [if_neg hpk], hcell⟩
  · obtain hrow | hrow := List.mem_append.1 hrow
    · exact .inl ⟨row, hrow, rfl, hcell⟩
    · cases List.mem_singleton.1 hrow
      exact .inr hcell

theorem store_holds (h : pk' = pk → pk ∈ contents.pks ∧ column ∉ cells.map Prod.fst) :
    (contents.store pk cells).Holds pk' column value ↔ contents.Holds pk' column value := by
  constructor
  · rintro ⟨row, hrow, rfl, hcell⟩
    rw [store] at hrow
    split at hrow
    · obtain ⟨row, hmem, rfl⟩ := List.mem_map.1 hrow
      split at hcell
      · next hpk =>
        rw [if_pos hpk] at h ⊢
        obtain hcell | hcell := List.mem_append.1 hcell
        · exact ⟨row, hmem, rfl, List.mem_of_mem_filter hcell⟩
        · exact absurd (List.mem_map_of_mem hcell) (h hpk).2
      · next hpk => exact ⟨row, hmem, by rw [if_neg hpk], hcell⟩
    · next habsent =>
      obtain hrow | hrow := List.mem_append.1 hrow
      · exact ⟨row, hrow, rfl, hcell⟩
      simp_all
  · rintro ⟨row, hrow, rfl, hcell⟩
    rw [store]
    split
    · refine ⟨_, List.mem_map_of_mem hrow, ?_⟩
      split
      · next hpk =>
        have hnot := (h hpk).2
        exact ⟨rfl, List.mem_append_left _ (List.mem_filter.2 ⟨hcell, decide_eq_true hnot⟩)⟩
      · exact ⟨rfl, hcell⟩
    · exact ⟨row, List.mem_append_left _ hrow, rfl, hcell⟩

theorem holds_remove (h : (contents.remove pk).Holds pk' column value) :
    contents.Holds pk' column value ∧ pk' ≠ pk := by
  obtain ⟨row, hrow, rfl, hcell⟩ := h
  obtain ⟨hrow, hpk⟩ := List.mem_filter.1 hrow
  exact ⟨⟨row, hrow, rfl, hcell⟩, of_decide_eq_true hpk⟩

theorem remove_holds (h : pk' ≠ pk) :
    (contents.remove pk).Holds pk' column value ↔ contents.Holds pk' column value := by
  refine ⟨fun h => (holds_remove h).1, ?_⟩
  rintro ⟨row, hrow, rfl, hcell⟩
  exact ⟨row, List.mem_filter.2 ⟨hrow, decide_eq_true h⟩, rfl, hcell⟩

/-- After a write the row updated has the written attributes from the update,
    and everything else is as it was. -/
theorem write_holds :
    (contents.write update).Holds pk column value ↔
      contents.Holds pk column value ∧ ¬ (pk = update.pk ∧ update.Writes column) ∨
        (pk ∈ contents.pks ∧ pk = update.pk ∧ update.Writes column) ∧
          (column, value) ∈ update.cells := by
  constructor
  · rintro ⟨row, hrow, rfl, hcell⟩
    obtain ⟨row, hmem, rfl⟩ := List.mem_map.1 hrow
    rw [Update.apply_pk]
    rw [Update.apply] at hcell
    split at hcell
    · next hpk =>
      obtain hcell | hcell := List.mem_append.1 hcell
      · obtain ⟨hcell, hnot⟩ := List.mem_filter.1 hcell
        exact .inl ⟨⟨row, hmem, rfl, hcell⟩, fun h => of_decide_eq_true hnot h.2⟩
      · obtain ⟨hcell, hwrites⟩ := List.mem_filter.1 hcell
        exact .inr ⟨⟨List.mem_map_of_mem hmem, hpk, of_decide_eq_true hwrites⟩, hcell⟩
    · next hpk => exact .inl ⟨⟨row, hmem, rfl, hcell⟩, fun h => hpk h.1⟩
  · rintro (⟨⟨row, hrow, rfl, hcell⟩, hnot⟩ | ⟨⟨hpk, rfl, hwrites⟩, hcell⟩)
    · refine ⟨_, List.mem_map_of_mem hrow, update.apply_pk row, ?_⟩
      grind [Update.apply]
    · obtain ⟨row, hrow, hpk⟩ := List.mem_map.1 hpk
      refine ⟨_, List.mem_map_of_mem hrow, (update.apply_pk row).trans hpk, ?_⟩
      rw [Update.apply, if_pos hpk]
      simp_all

/-! ### What is left -/

variable {K : FernetKey}

theorem left_store (h : ∀ cell ∈ cells, cell.2.Under K) :
    (contents.store pk cells).left K ⊆ contents.left K := by
  rintro ⟨pk', column⟩ ⟨value, hholds, hnot⟩
  obtain hholds | hcell := holds_store hholds
  · exact ⟨value, hholds, hnot⟩
  · exact absurd (h _ hcell) hnot

theorem left_remove : (contents.remove pk).left K ⊆ contents.left K := by
  rintro ⟨pk', column⟩ ⟨value, hholds, hnot⟩
  exact ⟨value, (holds_remove hholds).1, hnot⟩

theorem left_write (h : ∀ cell ∈ update.cells, cell.2.Under K) :
    (contents.write update).left K ⊆
      {x ∈ contents.left K | ¬ (x.1 = update.pk ∧ update.Writes x.2)} := by
  rintro ⟨pk, column⟩ ⟨value, hholds, hnot⟩
  obtain ⟨hholds, hkept⟩ | ⟨-, hcell⟩ := write_holds.1 hholds
  · exact ⟨⟨value, hholds, hnot⟩, hkept⟩
  · exact absurd (h _ hcell) hnot

variable {updates : List (Update t)} {contents' : Contents t}

theorem left_commit (hunder : ∀ update ∈ updates, ∀ cell ∈ update.cells, cell.2.Under K)
    (h : contents.commit updates = some contents') :
    contents'.left K ⊆
      {x ∈ contents.left K | ¬ ∃ update ∈ updates, update.pk = x.1 ∧ update.Writes x.2} := by
  rw [commit] at h
  split at h
  · cases h
    clear * - hunder
    induction updates generalizing contents with
    | nil => simp
    | cons update updates ih =>
      obtain ⟨hhead, htail⟩ := List.forall_mem_cons.1 hunder
      intro x hx
      obtain ⟨hleft, hrest⟩ := ih htail hx
      obtain ⟨hleft, hnot⟩ := left_write hhead hleft
      grind
  · cases h

/-! ### Plaintexts -/

def Faithful (contents : Contents t) (update : Update t) : Prop :=
  update.pk ∈ contents.pks → ∀ column plain, update.Writes column →
    ((update.pk, column, plain) ∈ contents.plaintexts ↔ (column, plain) ∈ plainCells update.cells)

theorem mem_plainCells {plain : Plain} :
    (column, plain) ∈ plainCells cells ↔
      ∃ value, (column, value) ∈ cells ∧ value.plain = plain := by simp [plainCells, List.mem_map]

theorem write_pks (update : Update t) : (contents.write update).pks = contents.pks := by
  rw [pks, write, mapRows, List.map_map]
  exact congrArg (List.map · contents.rows) (funext update.apply_pk)

theorem plaintexts_write (h : contents.Faithful update) :
    (contents.write update).plaintexts = contents.plaintexts := by
  ext ⟨pk, column, plain⟩
  constructor
  · rintro ⟨value, hholds, hplain⟩
    obtain ⟨hholds, -⟩ | ⟨⟨hpk, rfl, hwrites⟩, hcell⟩ := write_holds.1 hholds
    · exact ⟨value, hholds, hplain⟩
    · exact (h hpk column plain hwrites).2 (mem_plainCells.2 ⟨value, hcell, hplain⟩)
  · rintro ⟨value, hholds, hplain⟩
    by_cases hwritten : pk = update.pk ∧ update.Writes column
    · obtain ⟨rfl, hwrites⟩ := hwritten
      have hpk : update.pk ∈ contents.pks := by
        obtain ⟨row, hrow, hpk, -⟩ := hholds
        exact List.mem_map.2 ⟨row, hrow, hpk⟩
      obtain ⟨value', hcell, hsame⟩ :=
        mem_plainCells.1 ((h hpk column plain hwrites).1 ⟨value, hholds, hplain⟩)
      exact ⟨value', write_holds.2 (.inr ⟨⟨hpk, rfl, hwrites⟩, hcell⟩), hsame⟩
    · exact ⟨value, write_holds.2 (.inl ⟨hholds, hwritten⟩), hplain⟩

/-- **A commit of faithful updates changes no plaintext.** -/
theorem plaintexts_commit (hfaithful : ∀ update ∈ updates, contents.Faithful update)
    (h : contents.commit updates = some contents') :
    contents'.plaintexts = contents.plaintexts := by
  rw [commit] at h
  split at h
  · cases h
    clear * - hfaithful
    induction updates generalizing contents with
    | nil => rfl
    | cons update updates ih =>
      obtain ⟨hhead, htail⟩ := List.forall_mem_cons.1 hfaithful
      have hwrite := plaintexts_write hhead
      refine (ih fun other hmem => ?_).trans hwrite
      rw [Faithful, hwrite, write_pks]
      exact htail other hmem
  · cases h

theorem faithful_rotateRow {secrets : Secrets} {row : Row t} (hrow : row ∈ contents.rows)
    (h : rotateRow secrets (fun _ => true) row = .ok (some update)) :
    contents.Faithful update := by
  obtain ⟨hpk, hplain, -, -⟩ := rotateRow_some h
  intro _ column plain _
  rw [hplain, mem_plainCells, hpk]
  constructor
  · rintro ⟨value, ⟨row', hrow', hsame, hcell⟩, hvalue⟩
    rw [List.inj_on_of_nodup_map contents.unique hrow' hrow hsame] at hcell
    exact ⟨value, hcell, hvalue⟩
  · rintro ⟨value, hcell, hvalue⟩
    exact ⟨value, ⟨row, hrow, rfl, hcell⟩, hvalue⟩

/-- A writer crosses an update: it writes an attribute that the update writes
    as well, or inserts the row anew. -/
def Crosses (contents : Contents t) (pk : String) (cells : Cells t) (update : Update t) : Prop :=
  update.pk = pk ∧ (pk ∉ contents.pks ∨ ∃ cell ∈ cells, update.Writes cell.1)

theorem faithful_store
    (h : contents.Faithful update) (hcross : ¬ contents.Crosses pk cells update) :
    (contents.store pk cells).Faithful update := by
  intro hpks column plain hwrites
  have hthere : update.pk ∈ contents.pks := by
    by_contra habsent
    rw [pks, store] at hpks
    split at hpks
    · next hpk =>
      rw [mapRows, List.map_map] at hpks
      obtain ⟨row, hrow, hsame⟩ := List.mem_map.1 hpks
      refine habsent (List.mem_map.2 ⟨row, hrow, ?_⟩)
      rw [← hsame, Function.comp_apply]
      split <;> rfl
    · next hpk =>
      rw [List.map_append, List.mem_append] at hpks
      obtain hmem | hmem := hpks
      · exact habsent hmem
      · exact hcross ⟨List.mem_singleton.1 hmem, .inl hpk⟩
  rw [← h hthere column plain hwrites]
  refine exists_congr fun value => and_congr_left fun _ => store_holds fun hsame => ?_
  refine ⟨hsame ▸ hthere, fun hmem => hcross ⟨hsame, .inr ?_⟩⟩
  grind

theorem faithful_remove (h : contents.Faithful update) : (contents.remove pk).Faithful update := by
  intro hpks column plain hwrites
  obtain ⟨row, hrow, hsame⟩ := List.mem_map.1 hpks
  obtain ⟨hrow, hpk⟩ := List.mem_filter.1 hrow
  rw [← h (List.mem_map.2 ⟨row, hrow, hsame⟩) column plain hwrites]
  refine exists_congr fun value => and_congr_left fun _ => remove_holds ?_
  rw [← hsame]
  exact of_decide_eq_true hpk

end Contents

end

end RuleMind.KeyRotation
