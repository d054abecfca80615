/-
  The retention columns of the settings, `update_settings` of `app/storage.py`, and the job that
  goes by them, `archive_old_decisions` of `app/scheduler.py` with `archive_and_purge_decisions`.
-/
import RuleMind.RetentionMonths
import Mathlib.Data.List.Sort

namespace RuleMind.RetentionSettings

open RetentionMonths

/-! ### `update_settings` -/

structure Stored where
  days : ℤ
  months : Option ℤ
  deriving DecidableEq

def DEFAULT : Stored := ⟨SettingsWrites.DEFAULT_SETTINGS.auditRetentionDays, none⟩

/-- The retention keys of `get_settings`. -/
def getSettings (row : Option Stored) : Dict :=
  let row := row.getD DEFAULT
  [("audit_retention_days", .int row.days),
    ("audit_retention_months", (row.months.map Value.int).getD .null)]

def get (patch : Dict) (key : String) : Value := (patch.lookup key).getD .null

/-- What the integer columns of the database hold. -/
def Stored.Fits (fits : ℤ → Bool) (row : Stored) : Prop :=
  fits row.days = true ∧ ∀ m ∈ row.months, fits m = true

instance (fits : ℤ → Bool) (row : Stored) : Decidable (row.Fits fits) :=
  inferInstanceAs (Decidable (_ ∧ _))

/-- The columns that `update_settings` writes. -/
def written (py : PyText) (now : Moment) (row : Option Stored) (patch : Dict) :
    Except PyError Stored := do
  let monthsPatch := get patch "audit_retention_months"
  let daysPatch := get patch "audit_retention_days"
  let nextDays :=
    if daysPatch.isNull then get (getSettings row) "audit_retention_days" else daysPatch
  if monthsPatch.isNull then
    let days ← pyIntOf py nextDays
    .ok ⟨days, if daysPatch.isNull then (row.getD DEFAULT).months else none⟩
  else
    match ← normalizeRetentionMonths py monthsPatch with
    | some months => (retentionWindowDays py (.int months) now).map fun days => ⟨days, some months⟩
    | none => (pyIntOf py nextDays).map fun days => ⟨days, none⟩

/-- `update_settings`; it raises where the database does. -/
def updateSettings (py : PyText) (fits : ℤ → Bool) (now : Moment) (row : Option Stored)
    (patch : Dict) : Except PyError Stored := do
  let row ← written py now row patch
  if row.Fits fits then .ok row else .error .overflowError

abbrev Rows := String → Option Stored

structure Write where
  tenant : String
  now : Moment
  patch : Dict

def Rows.apply (py : PyText) (fits : ℤ → Bool) (rows : Rows) (w : Write) : Rows :=
  match updateSettings py fits w.now (rows w.tenant) w.patch with
  | .ok row => Function.update rows w.tenant (some row)
  | .error _ => rows

structure Decision where
  id : ℕ
  tenant : String
  createdAt : Moment

def BATCH_SIZE : ℕ := 1000

def MAX_BATCHES : ℕ := 10000

instance : DecidableLT Moment := fun a b => inferInstanceAs (Decidable (a.instant < b.instant))

instance : DecidableLE Moment := fun a b => inferInstanceAs (Decidable (a.instant ≤ b.instant))

/-- The oldest decisions of a workspace from before a time. -/
def batch (tenant : String) (olderThan : Moment) (decisions : List Decision) : List Decision :=
  ((decisions.filter fun d => d.tenant = tenant ∧ d.createdAt < olderThan).insertionSort
    (fun d e => d.createdAt ≤ e.createdAt)).take BATCH_SIZE

def without (decisions batch : List Decision) : List Decision :=
  decisions.filter fun d => d.id ∉ batch.map Decision.id

/-- `archive_and_purge_decisions`, as many batches as there may be; nothing for the count where it
    raises.  `write` says which batches are made into records and archived. -/
def archiveAndPurge (write : List Decision → Bool) (tenant : String) (olderThan : Moment) :
    ℕ → List Decision → ℕ → List Decision × Option ℕ
  | 0, decisions, total => (decisions, some total)
  | n + 1, decisions, total =>
    let rows := batch tenant olderThan decisions
    if rows.isEmpty then (decisions, some total)
    else if write rows then
      if rows.length < BATCH_SIZE then (without decisions rows, some (total + rows.length))
      else archiveAndPurge write tenant olderThan n (without decisions rows) (total + rows.length)
    else (decisions, none)

/-! ### `archive_old_decisions` -/

/-- What the job meets: when it comes to each workspace, which settings are not read, and which
    batches are archived. -/
structure Job where
  py : PyText
  tenants : List String
  distinct : tenants.Nodup
  now : String → Moment
  unread : String → Option PyError
  write : List Decision → Bool

structure Sweep where
  decisions : List Decision
  archived : ℕ
  tenants : ℕ

section Job
variable (J : Job) (rows : Rows)

/-- `retention_cutoff(storage.get_settings(tenant_id=tenant_id))`. -/
def cutoff (tenant : String) : Except PyError (Option Moment) :=
  match J.unread tenant with
  | some e => .error e
  | none => retentionCutoff J.py (getSettings (rows tenant)) (J.now tenant)

def sweepTenant (s : Sweep) (tenant : String) : Except PyError Sweep :=
  if tenant = "" then .ok s
  else do
    match ← cutoff J rows tenant with
    | none => .ok s
    | some olderThan =>
      match archiveAndPurge J.write tenant olderThan MAX_BATCHES s.decisions 0 with
      | (decisions, some n) => .ok ⟨decisions, s.archived + n, s.tenants + 1⟩
      | (decisions, none) => .ok { s with decisions := decisions }

/-- `archive_old_decisions` of the workspaces; where it raises, the decisions purged before stay
    purged. -/
def archiveOldDecisions : List String → Sweep → Sweep × Option PyError
  | [], s => (s, none)
  | tenant :: tenants, s =>
    match sweepTenant J rows s tenant with
    | .ok s' => archiveOldDecisions tenants s'
    | .error e => (s, some e)

/-- The decisions that are left when the job has gone over the workspaces. -/
def left (tenants : List String) (decisions : List Decision) : List Decision :=
  (archiveOldDecisions J rows tenants ⟨decisions, 0, 0⟩).1.decisions

end Job

/-! ### The cutoff of a row -/

def Stored.window (row : Stored) : Option ℤ :=
  row.months.bind SettingsWrites.normalizeRetentionMonths

def Stored.cutoff (row : Stored) (now : Moment) : Except PyError (Option Moment) :=
  match row.window with
  | some months => (addMonths now (-months)).map some
  | none => if row.days ≤ 0 then .ok none else (minusDays now row.days.toNat).map some

/-- The cutoff is of a moment after the beginning of the year 1. -/
def Stored.Begins (row : Stored) (now : Moment) : Prop :=
  match row.window with
  | some months => 1 ≤ ((now.months : ℤ) - months) / 12
  | none => row.days ≤ 0 ∨ FIRST + row.days.toNat ≤ now.days

section Rows
variable {py : PyText} {fits : ℤ → Bool} {now : Moment} {row row' : Option Stored} {r : Stored}

theorem retentionDays_stored :
    retentionDays py (getSettings row) = .ok (some (row.getD DEFAULT).days) := by
  have hvalue : Value.orElse ((getSettings row).lookup "audit_retention_days") (.int 0) =
      .int (row.getD DEFAULT).days := by
    show (if (Value.int _).truthy then Value.int (row.getD DEFAULT).days else .int 0) = _
    split
    · rfl
    · simp_all [Value.truthy]
  rw [retentionDays, hvalue]
  rfl

theorem normalized_stored : normalizeRetentionMonths py
    (((getSettings row).lookup "audit_retention_months").getD .null) =
      .ok (row.getD DEFAULT).window := by
  have hlookup : ((getSettings row).lookup "audit_retention_months").getD .null =
      ((row.getD DEFAULT).months.map Value.int).getD .null := rfl
  rw [hlookup, Stored.window]
  cases (row.getD DEFAULT).months with
  | none => rfl
  | some months => rfl

theorem retentionCutoff_stored :
    retentionCutoff py (getSettings row) now = (row.getD DEFAULT).cutoff now := by
  rw [retentionCutoff, normalized_stored, retentionDays_stored, Stored.cutoff]
  cases (row.getD DEFAULT).window with
  | none => rfl
  | some months => rfl

theorem normalize_bounds {m k : ℤ} (h : SettingsWrites.normalizeRetentionMonths m = some k) :
    1 ≤ k ∧ k ≤ SettingsWrites.MAX_RETENTION_MONTHS := by
  rw [SettingsWrites.normalizeRetentionMonths] at h
  split at h
  · cases h
  · have hmax : (1 : ℤ) ≤ SettingsWrites.MAX_RETENTION_MONTHS := by decide
    obtain rfl := Option.some.inj h
    omega

theorem normalize_again {m k : ℤ} (h : SettingsWrites.normalizeRetentionMonths m = some k) :
    SettingsWrites.normalizeRetentionMonths k = some k := by
  obtain ⟨hone, hmax⟩ := normalize_bounds h
  rw [SettingsWrites.normalizeRetentionMonths, if_neg (by omega), min_eq_left hmax]

theorem cutoff_ok_iff {stored : Stored} : (∃ c, stored.cutoff now = .ok c) ↔ stored.Begins now := by
  rw [Stored.cutoff, Stored.Begins]
  cases hwindow : stored.window with
  | none =>
    dsimp only
    split
    · rename_i hzero
      exact ⟨fun _ => .inl hzero, fun _ => ⟨none, rfl⟩⟩
    simp_all [minusDays_ok_iff, map_eq_ok]
  | some k =>
    obtain ⟨m, -, hm⟩ := Option.bind_eq_some_iff.1 hwindow
    obtain ⟨hone, -⟩ := normalize_bounds hm
    constructor
    · rintro ⟨c, hc⟩
      obtain ⟨r, hr, -⟩ := map_eq_ok.1 hc
      have hmonths := (addMonths_shifted hr).months
      have hdiv := r.months_div.1
      have hyears := r.years
      show 1 ≤ ((now.months : ℤ) - k) / 12
      omega
    · intro hyear
      have hdiv := now.months_div.1
      have hyears := now.years
      obtain ⟨r, hr⟩ := @addMonths_exists now (-k) hyear (by omega)
      exact ⟨some r, map_eq_ok.2 ⟨r, hr, rfl⟩⟩

/-! ### Settings written back -/

theorem written_back (h : updateSettings py fits now row' (getSettings row) = .ok r) :
    r.window = (row.getD DEFAULT).window ∧
      (r.window = none → r.days = (row.getD DEFAULT).days) := by
  obtain ⟨stored, hwritten, hfits⟩ := bind_eq_ok.1 h
  split at hfits
  · cases hfits
    generalize hstored : row.getD DEFAULT = stored' at *
    obtain ⟨days, months⟩ := stored'
    have hmonths : get (getSettings row) "audit_retention_months" =
        (months.map Value.int).getD .null := by
      rw [getSettings, hstored]
      rfl
    have hdays : get (getSettings row) "audit_retention_days" = .int days := by
      rw [getSettings, hstored]
      rfl
    rw [written, hmonths, hdays] at hwritten
    cases months with
    | none =>
      cases hwritten
      exact ⟨rfl, fun _ => rfl⟩
    | some m =>
      have hnormal : normalizeRetentionMonths py (.int m) =
          .ok (SettingsWrites.normalizeRetentionMonths m) := rfl
      have hwindow : Stored.window ⟨days, some m⟩ = SettingsWrites.normalizeRetentionMonths m := rfl
      obtain ⟨months, hmonths, hrow⟩ := bind_eq_ok.1 hwritten
      obtain rfl := Except.ok.inj (hnormal.symm.trans hmonths)
      rw [hwindow]
      cases hm : SettingsWrites.normalizeRetentionMonths m with
      | none =>
        rw [hm] at hrow
        cases hrow
        exact ⟨rfl, fun _ => rfl⟩
      | some k =>
        rw [hm] at hrow
        obtain ⟨mirror, -, rfl⟩ := map_eq_ok.1 hrow
        exact ⟨normalize_again hm, fun h => by cases (normalize_again hm).symm.trans h⟩
  · cases hfits

theorem cutoff_written_back (h : updateSettings py fits now row' (getSettings row) = .ok r)
    (time : Moment) : r.cutoff time = (row.getD DEFAULT).cutoff time := by
  grind [written_back, Stored.cutoff]

end Rows

/-! ### One workspace of the job -/

def own (tenant : String) (decisions : List Decision) : List Decision :=
  decisions.filter fun d => d.tenant = tenant

section Purge
variable {write : List Decision → Bool} {tenant other : String} {olderThan : Moment}
  {decisions : List Decision} {n total : ℕ}

theorem mem_batch {d : Decision} (h : d ∈ batch tenant olderThan decisions) :
    d ∈ decisions ∧ d.tenant = tenant ∧ d.createdAt < olderThan := by
  have hmem := (List.perm_insertionSort _ _).mem_iff.1 (List.mem_of_mem_take h)
  simp_all

theorem batch_own : batch tenant olderThan (own tenant decisions) =
    batch tenant olderThan decisions := by
  rw [batch, own, List.filter_filter]
  congr 2
  grind

theorem own_without (rows : List Decision) :
    own tenant (without decisions rows) = without (own tenant decisions) rows := by
  rw [own, without, own, without, List.filter_filter, List.filter_filter]
  refine List.filter_congr fun d _ => Bool.and_comm _ _

theorem own_archiveAndPurge :
    own tenant (archiveAndPurge write tenant olderThan n decisions total).1 =
      (archiveAndPurge write tenant olderThan n (own tenant decisions) total).1 := by
  induction n generalizing decisions total with
  | zero => rfl
  | succ n ih => grind -ring -linarith [archiveAndPurge, batch_own, own_without]

theorem archiveAndPurge_sublist :
    (archiveAndPurge write tenant olderThan n decisions total).1.Sublist decisions := by
  induction n generalizing decisions total with
  | zero => exact .refl _
  | succ n ih =>
    rw [archiveAndPurge]
    split
    · exact .refl _
    · split
      · split
        · exact List.filter_sublist
        · exact ih.trans List.filter_sublist
      · exact .refl _

theorem own_archiveAndPurge_other (hids : (decisions.map Decision.id).Nodup) (h : other ≠ tenant) :
    own other (archiveAndPurge write tenant olderThan n decisions total).1 =
      own other decisions := by
  have hwithout : ∀ decisions : List Decision, (decisions.map Decision.id).Nodup →
      own other (without decisions (batch tenant olderThan decisions)) = own other decisions := by
    intro decisions hids
    rw [own_without, without, List.filter_eq_self]
    intro d hd
    rw [own, List.mem_filter, decide_eq_true_iff] at hd
    rw [decide_eq_true_iff]
    rintro hmem
    obtain ⟨e, he, hid⟩ := List.mem_map.1 hmem
    obtain ⟨hemem, htenant, -⟩ := mem_batch he
    obtain rfl := List.inj_on_of_nodup_map hids hemem hd.1 hid
    exact h (hd.2.symm.trans htenant)
  induction n generalizing decisions total with
  | zero => rfl
  | succ n ih =>
    rw [archiveAndPurge]
    split
    · rfl
    · split
      · split
        · exact hwithout decisions hids
        · have hrest : ((without decisions (batch tenant olderThan decisions)).map
              Decision.id).Nodup := hids.sublist (List.filter_sublist.map _)
          rw [ih hrest, hwithout decisions hids]
      · rfl

theorem batch_eq_nil_iff : batch tenant olderThan decisions = [] ↔
    ¬ ∃ d ∈ decisions, d.tenant = tenant ∧ d.createdAt < olderThan := by
  rw [batch, List.take_eq_nil_iff, or_iff_right (by decide), ← List.length_eq_zero_iff,
    List.length_insertionSort, List.length_eq_zero_iff, List.filter_eq_nil_iff]
  simp only [decide_eq_true_iff, not_exists, not_and]

theorem not_mem_without {d : Decision} {rows : List Decision} (h : d ∈ rows) :
    d ∉ without decisions rows := by
  rw [without, List.mem_filter, decide_eq_true_iff]
  exact fun hd => hd.2 (List.mem_map_of_mem h)

/-- There is a decision to archive, and the first batch of them is archived. -/
def Takes (write : List Decision → Bool) (tenant : String) (olderThan : Moment)
    (decisions : List Decision) : Prop :=
  (∃ d ∈ decisions, d.tenant = tenant ∧ d.createdAt < olderThan) ∧
    write (batch tenant olderThan decisions) = true

theorem own_archiveAndPurge_eq_iff :
    own tenant (archiveAndPurge write tenant olderThan (n + 1) decisions total).1 =
      own tenant decisions ↔ ¬ Takes write tenant olderThan decisions := by
  rw [archiveAndPurge]
  cases hbatch : batch tenant olderThan decisions with
  | nil => exact ⟨fun _ h => batch_eq_nil_iff.1 hbatch h.1, fun _ => rfl⟩
  | cons first rest =>
    have hfirst : first ∈ batch tenant olderThan decisions := by
      rw [hbatch]
      exact List.mem_cons_self
    obtain ⟨hmem, hof⟩ := mem_batch hfirst
    rw [if_neg (by exact Bool.false_ne_true)]
    by_cases hwrite : write (first :: rest) = true
    · rw [if_pos hwrite]
      refine iff_of_false (fun heq => ?_) (not_not.2 ⟨⟨first, hmem, hof⟩, hbatch ▸ hwrite⟩)
      have hown : first ∈ own tenant decisions := List.mem_filter.2 ⟨hmem, decide_eq_true hof.1⟩
      rw [← heq, own] at hown
      have hkept := (List.mem_filter.1 hown).1
      grind [not_mem_without, archiveAndPurge_sublist]
    · rw [if_neg hwrite]
      exact iff_of_true rfl fun h => hwrite (hbatch ▸ h.2)

end Purge

/-! ### The job -/

section Job
variable {J : Job} {rows : Rows} {s s' : Sweep} {tenant other : String}
  {decisions : List Decision} {tenants before rest : List String}

def Passes (J : Job) (rows : Rows) (tenant : String) : Prop :=
  tenant = "" ∨ J.unread tenant = none ∧ ((rows tenant).getD DEFAULT).Begins (J.now tenant)

/-- The workspace has decisions to archive: a cutoff, a decision from before it, and a sink for
    the first batch. -/
def Due (J : Job) (rows : Rows) (decisions : List Decision) (tenant : String) : Prop :=
  tenant ≠ "" ∧ ∃ olderThan, cutoff J rows tenant = .ok (some olderThan) ∧
    Takes J.write tenant olderThan decisions

/-- What is left when the job has been at a workspace. -/
def after (J : Job) (rows : Rows) (tenant : String) (decisions : List Decision) : List Decision :=
  if tenant = "" then decisions
  else match cutoff J rows tenant with
    | .ok (some olderThan) => (archiveAndPurge J.write tenant olderThan MAX_BATCHES decisions 0).1
    | _ => decisions

theorem cutoff_passes : (∃ c, cutoff J rows tenant = .ok c) ↔
    J.unread tenant = none ∧ ((rows tenant).getD DEFAULT).Begins (J.now tenant) := by
  grind [cutoff, retentionCutoff_stored, cutoff_ok_iff]

theorem sweepTenant_cases (s : Sweep) (tenant : String) :
    (Passes J rows tenant ∧ ∃ s', sweepTenant J rows s tenant = .ok s' ∧
      s'.decisions = after J rows tenant s.decisions) ∨
    (¬ Passes J rows tenant ∧ (∃ e, sweepTenant J rows s tenant = .error e) ∧
      after J rows tenant s.decisions = s.decisions) := by
  rw [Passes, ← cutoff_passes, sweepTenant, after]
  by_cases hid : tenant = ""
  · simp_all
  · rw [if_neg hid, if_neg hid]
    cases cutoff J rows tenant with
    | error e =>
      refine .inr ⟨?_, ⟨e, rfl⟩, rfl⟩
      simp_all
    | ok c =>
      refine .inl ⟨.inr ⟨c, rfl⟩, ?_⟩
      cases c with
      | none => exact ⟨s, rfl, rfl⟩
      | some olderThan =>
        dsimp only [bind, Except.bind]
        generalize archiveAndPurge J.write tenant olderThan MAX_BATCHES s.decisions 0 = result
        obtain ⟨decisions, count⟩ := result
        cases count with
        | none => exact ⟨_, rfl, rfl⟩
        | some n => exact ⟨_, rfl, rfl⟩

theorem own_after : own tenant (after J rows tenant decisions) =
    after J rows tenant (own tenant decisions) := by grind [after, own_archiveAndPurge]

theorem own_after_other (hids : (decisions.map Decision.id).Nodup) (h : other ≠ tenant) :
    own other (after J rows tenant decisions) = own other decisions := by
  grind [after, own_archiveAndPurge_other]

theorem after_ids (hids : (decisions.map Decision.id).Nodup) :
    ((after J rows tenant decisions).map Decision.id).Nodup := by
  grind [after, archiveAndPurge_sublist]

theorem own_after_eq_iff : own tenant (after J rows tenant decisions) = own tenant decisions ↔
    ¬ Due J rows decisions tenant := by
  rw [after, Due]
  split
  · rename_i hid
    exact iff_of_true rfl fun h => h.1 hid
  · rename_i hid
    split
    · simp_all [own_archiveAndPurge_eq_iff, MAX_BATCHES]
    · simp_all

/-! ### The run of the job -/

theorem decisions_archiveOldDecisions (tenants : List String) (s : Sweep) :
    (archiveOldDecisions J rows tenants s).1.decisions = left J rows tenants s.decisions := by
  suffices h : ∀ s s' : Sweep, s.decisions = s'.decisions →
      (archiveOldDecisions J rows tenants s).1.decisions =
        (archiveOldDecisions J rows tenants s').1.decisions from h s _ rfl
  induction tenants with
  | nil => exact fun s s' h => h
  | cons tenant tenants ih =>
    intro s s' h
    rw [archiveOldDecisions, archiveOldDecisions]
    rcases @sweepTenant_cases J rows s tenant with ⟨hp, t, ht, hd⟩ | ⟨hp, ⟨e, he⟩, -⟩
    · rcases @sweepTenant_cases J rows s' tenant with ⟨-, t', ht', hd'⟩ | ⟨hp', -, -⟩
      · rw [ht, ht']
        exact ih t t' (by rw [hd, hd', h])
      · exact absurd hp hp'
    · rcases @sweepTenant_cases J rows s' tenant with ⟨hp', -, -⟩ | ⟨-, ⟨e', he'⟩, -⟩
      · exact absurd hp' hp
      · rw [he, he']
        exact h

theorem left_cons (tenant : String) (tenants : List String) (decisions : List Decision) :
    (Passes J rows tenant ∧
      left J rows (tenant :: tenants) decisions =
        left J rows tenants (after J rows tenant decisions)) ∨
    (¬ Passes J rows tenant ∧ left J rows (tenant :: tenants) decisions = decisions ∧
      after J rows tenant decisions = decisions) := by
  rw [left, archiveOldDecisions]
  rcases @sweepTenant_cases J rows ⟨decisions, 0, 0⟩ tenant with ⟨hp, t, ht, hd⟩ | ⟨hp, ⟨e, he⟩, hd⟩
  · simp_all [decisions_archiveOldDecisions]
  · rw [he]
    exact .inr ⟨hp, rfl, hd⟩

theorem own_left_other (hids : (decisions.map Decision.id).Nodup) (h : other ∉ tenants) :
    own other (left J rows tenants decisions) = own other decisions := by
  induction tenants generalizing decisions with
  | nil => rfl
  | cons tenant tenants ih =>
    rw [List.mem_cons, not_or] at h
    rcases @left_cons J rows tenant tenants decisions with ⟨-, hleft⟩ | ⟨-, hleft, -⟩
    · rw [hleft, ih (after_ids hids) h.2, own_after_other hids h.1]
    · rw [hleft]

theorem own_left (hids : (decisions.map Decision.id).Nodup) (hbefore : tenant ∉ before)
    (hrest : tenant ∉ rest) :
    ((∀ b ∈ before, Passes J rows b) ∧
      own tenant (left J rows (before ++ tenant :: rest) decisions) =
        own tenant (after J rows tenant decisions)) ∨
    ((∃ b ∈ before, ¬ Passes J rows b) ∧
      own tenant (left J rows (before ++ tenant :: rest) decisions) = own tenant decisions) := by
  induction before generalizing decisions with
  | nil =>
    refine .inl ⟨fun b hb => (by cases hb), ?_⟩
    rcases @left_cons J rows tenant rest decisions with ⟨-, hleft⟩ | ⟨-, hleft, hafter⟩
    · rw [List.nil_append, hleft, own_left_other (after_ids hids) hrest]
    · rw [List.nil_append, hleft, hafter]
  | cons b before ih =>
    rw [List.mem_cons, not_or] at hbefore
    rw [List.cons_append]
    rcases @left_cons J rows b (before ++ tenant :: rest) decisions with
      ⟨hp, hleft⟩ | ⟨hp, hleft, -⟩
    · have hother : own tenant (after J rows b decisions) = own tenant decisions :=
        own_after_other hids hbefore.1
      rw [hleft]
      rcases @ih (after J rows b decisions) (after_ids hids) hbefore.2 with ⟨hall, h⟩ | ⟨hsome, h⟩
      · simp_all [own_after]
      · simp_all
    simp_all

end Job

/-! ### What is promised -/

/-- Writing settings back keeps the cutoff that was read, at any time; another workspace's settings
    stay as they are. -/
structure UnitsAgree (py : PyText) (fits : ℤ → Bool) (rows : Rows) : Prop where
  back : ∀ tenant now time,
    retentionCutoff py (getSettings (rows.apply py fits ⟨tenant, now, getSettings (rows tenant)⟩
      tenant)) time = retentionCutoff py (getSettings (rows tenant)) time
  /-- Over whatever has been written in between. -/
  earlier : ∀ (rows' : Rows) tenant now row time,
    updateSettings py fits now (rows' tenant) (getSettings (rows tenant)) = .ok row →
    retentionCutoff py (getSettings (some row)) time =
      retentionCutoff py (getSettings (rows tenant)) time
  others : ∀ (w : Write) tenant, tenant ≠ w.tenant → rows.apply py fits w tenant = rows tenant

/-- The job leaves of each workspace what it would leave for it alone. -/
def Isolated (J : Job) (rows : Rows) (decisions : List Decision) : Prop :=
  ∀ tenant ∈ J.tenants, own tenant (left J rows J.tenants decisions) =
    own tenant (left J rows [tenant] decisions)

/-- No workspace with decisions to archive comes after one that stops the job. -/
def NoneStopped (J : Job) (rows : Rows) (decisions : List Decision) : Prop :=
  ∀ before tenant rest, J.tenants = before ++ tenant :: rest → Due J rows decisions tenant →
    ∀ b ∈ before, Passes J rows b

theorem unitsAgree (py : PyText) (fits : ℤ → Bool) (rows : Rows) : UnitsAgree py fits rows := by
  have hearlier : ∀ (rows' : Rows) tenant now row time,
      updateSettings py fits now (rows' tenant) (getSettings (rows tenant)) = .ok row →
      retentionCutoff py (getSettings (some row)) time =
        retentionCutoff py (getSettings (rows tenant)) time := by
    intro rows' tenant now row time h
    rw [retentionCutoff_stored, retentionCutoff_stored]
    exact cutoff_written_back h time
  refine ⟨fun tenant now time => ?_, hearlier, fun w tenant hne => ?_⟩
  · rw [Rows.apply]
    cases h : updateSettings py fits now (rows tenant) (getSettings (rows tenant)) with
    | error e => rfl
    | ok row =>
      dsimp only
      rw [Function.update_self]
      exact hearlier rows tenant now row time h
  · rw [Rows.apply]
    cases updateSettings py fits w.now (rows w.tenant) w.patch with
    | error e => rfl
    | ok row => exact Function.update_of_ne hne _ _

/-- **The job is isolated** if and only if none is stopped. -/
theorem isolated_iff {J : Job} {rows : Rows} {decisions : List Decision}
    (hids : (decisions.map Decision.id).Nodup) :
    Isolated J rows decisions ↔ NoneStopped J rows decisions := by
  have hsplit : ∀ before tenant rest, J.tenants = before ++ tenant :: rest →
      tenant ∉ before ∧ tenant ∉ rest := by
    intro before tenant rest h
    have hnodup := J.distinct
    rw [h, List.nodup_middle, List.nodup_cons, List.mem_append, not_or] at hnodup
    exact hnodup.1
  have halone : ∀ tenant, own tenant (left J rows [tenant] decisions) =
      own tenant (after J rows tenant decisions) := by
    intro tenant
    rcases @left_cons J rows tenant [] decisions with ⟨-, h⟩ | ⟨-, h, hafter⟩
    · rw [h]
      rfl
    · rw [h, hafter]
  constructor
  · intro h before tenant rest heq hdue
    obtain ⟨hbefore, hrest⟩ := hsplit before tenant rest heq
    have hmem : tenant ∈ J.tenants := by
      rw [heq]
      exact List.mem_append_right _ List.mem_cons_self
    have hsame := h tenant hmem
    grind [own_left, own_after_eq_iff]
  · intro h tenant hmem
    obtain ⟨before, rest, heq⟩ := List.append_of_mem hmem
    obtain ⟨hbefore, hrest⟩ := hsplit before tenant rest heq
    rw [halone]
    rcases @own_left J rows tenant decisions before rest hids hbefore hrest with
      ⟨-, hleft⟩ | ⟨⟨b, hb, hnot⟩, hleft⟩
    · rw [heq, hleft]
    · rw [heq, hleft]
      refine (own_after_eq_iff.2 fun hdue => ?_).symm
      exact hnot (h before tenant rest heq hdue b hb)

structure Table where
  decisions : List Decision
  ids : (decisions.map Decision.id).Nodup

/-- **After any patches** the units agree, and the job is isolated if and only if no workspace with
    decisions to archive comes after one that stops it. -/
theorem retention_isolated_iff (J : Job) (fits : ℤ → Bool) (stored : Rows) (writes : List Write)
    (T : Table) :
    UnitsAgree J.py fits (writes.foldl (Rows.apply J.py fits) stored) ∧
        Isolated J (writes.foldl (Rows.apply J.py fits) stored) T.decisions ↔
      NoneStopped J (writes.foldl (Rows.apply J.py fits) stored) T.decisions := by
  rw [isolated_iff T.ids]
  exact and_iff_right (unitsAgree J.py fits _)

def int32 (n : ℤ) : Bool := -2 ^ 31 ≤ n && n < 2 ^ 31

/-- Two workspaces at the end of March, and a sink that takes everything. -/
def marchJob : Job where
  py := asciiText
  tenants := ["acme", "zenith"]
  distinct := by decide
  now := fun _ => march 31 0 (by decide) (by decide)
  unread := fun _ => none
  write := fun _ => true

/-- The second one keeps its decisions for a month. -/
def monthRows : Rows := fun tenant => if tenant = "zenith" then some ⟨28, some 1⟩ else none

/-- A decision of the second one, of the beginning of February. -/
def oldDecision : Decision where
  id := 1
  tenant := "zenith"
  createdAt :=
    { february 0 (by decide) with day := 1, isDate := ⟨by decide, by decide, by decide, by decide⟩ }

/-- The first one sets a window of a million days, and the second one's decision is not archived. -/
theorem long_window_stops :
    let writes : List Write :=
      [⟨"acme", march 31 0 (by decide) (by decide), [("audit_retention_days", .int 1000000)]⟩]
    let rows := writes.foldl (Rows.apply asciiText int32) monthRows
    rows "acme" = some ⟨1000000, none⟩ ∧ rows "zenith" = some ⟨28, some 1⟩ ∧
      Due marchJob rows [oldDecision] "zenith" ∧ ¬ Passes marchJob rows "acme" ∧
      ¬ Isolated marchJob rows [oldDecision] := by
  intro writes rows
  have hacme : rows "acme" = some ⟨1000000, none⟩ := by decide +kernel
  have hzenith : rows "zenith" = some ⟨28, some 1⟩ := by decide +kernel
  have hstops : ¬ Passes marchJob rows "acme" := by
    rintro (h | ⟨-, hbegins⟩)
    · exact absurd h (by decide)
    · rw [hacme] at hbegins
      have hdays : (march 31 0 (by decide) (by decide)).days < 1000000 := by decide +kernel
      rcases hbegins with h | h
      · exact absurd h (by decide)
      · exact absurd ((Nat.le_add_left _ _).trans h) (not_le.2 hdays)
  have hdue : Due marchJob rows [oldDecision] "zenith" := by
    refine ⟨by decide, february 0 (by decide), ?_,
      ⟨oldDecision, List.mem_singleton_self _, rfl, ?_⟩, rfl⟩
    · show retentionCutoff asciiText (getSettings (rows "zenith")) _ = _
      rw [retentionCutoff_stored, hzenith]
      have hwindow : Stored.window ⟨28, some 1⟩ = some 1 := by decide
      have hback : addMonths (march 31 0 (by decide) (by decide)) (-1) =
          .ok (february 0 (by decide)) := march_back _ _ (by decide)
      rw [Option.getD_some, Stored.cutoff, hwindow]
      exact map_eq_ok.2 ⟨_, hback, rfl⟩
    · exact Moment.lt_iff.2 (.inl (Moment.days_lt_iff.2 (.inr ⟨rfl, by decide⟩)))
  refine ⟨hacme, hzenith, hdue, hstops, fun h => hstops ?_⟩
  have hids : ([oldDecision].map Decision.id).Nodup := by decide
  exact (isolated_iff hids).1 h ["acme"] "zenith" [] rfl hdue "acme" (List.mem_singleton_self _)

end RuleMind.RetentionSettings
