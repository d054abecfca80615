/-
  The retention window of `app/archiver.py`, in calendar months.

  A moment is a naive `datetime`; its instant counts microseconds by the calendar.
-/
import RuleMind.CalendarDays
import RuleMind.SettingsWrites

namespace RuleMind.RetentionMonths

open SettingsWrites (MAX_RETENTION_MONTHS)

/-! ### Moments -/

def DAY : ℕ := 86400 * 10 ^ 6

@[ext]
structure Moment where
  year : ℕ
  month : ℕ
  day : ℕ
  /-- The time of day, in microseconds. -/
  time : ℕ
  isDate : IsDate year month day
  years : 1 ≤ year ∧ year ≤ 9999
  time_lt : time < DAY

/-- The months before that of a moment, from the beginning of the year 0. -/
def Moment.months (m : Moment) : ℕ := m.year * 12 + (m.month - 1)

def Moment.days (m : Moment) : ℕ := dayNumber m.year m.month m.day

def Moment.length (m : Moment) : ℕ := daysInMonth m.year m.month

def Moment.instant (m : Moment) : ℤ := m.days * DAY + m.time

instance : Preorder Moment :=
  @Preorder.lift _ ℤ Int.instLinearOrder.toPartialOrder.toPreorder Moment.instant

/-! ### The months of a year -/

section Calendar
variable {year month : ℕ}

theorem daysInMonth_pos (hm : 1 ≤ month) (hm' : month ≤ 12) : 1 ≤ daysInMonth year month := by
  rw [daysInMonth]
  split
  · norm_num
  · interval_cases month
    all_goals decide

/-- The first day of a month, the months counted from the year 0. -/
def monthStart (n : ℕ) : ℕ := dayNumber (n / 12) (n % 12 + 1) 1

def monthLength (n : ℕ) : ℕ := daysInMonth (n / 12) (n % 12 + 1)

theorem monthStart_succ (n : ℕ) : monthStart (n + 1) = monthStart n + monthLength n := by
  simp only [monthStart, monthLength, dayNumber, Nat.add_sub_cancel, Nat.sub_self, Nat.add_zero]
  by_cases hlast : n % 12 = 11
  · obtain ⟨hyear, hmonth⟩ : (n + 1) / 12 = n / 12 + 1 ∧ (n + 1) % 12 = 0 := by omega
    have hall := daysOfMonths_year (n / 12)
    grind -ring -linarith [daysOfMonths, daysBeforeYear]
  · obtain ⟨hyear, hmonth⟩ : (n + 1) / 12 = n / 12 ∧ (n + 1) % 12 = n % 12 + 1 := by omega
    rw [hyear, hmonth, daysOfMonths, Nat.add_assoc]

theorem monthStart_lt {n k : ℕ} (h : n < k) : monthStart n + monthLength n ≤ monthStart k := by
  induction k, h using Nat.le_induction with
  | base => exact (monthStart_succ n).ge
  | succ k hk ih =>
    rw [monthStart_succ]
    omega

end Calendar

namespace Moment
variable (m : Moment)

theorem months_div : m.months / 12 = m.year ∧ m.months % 12 + 1 = m.month := by
  obtain ⟨hm, hm', -⟩ := m.isDate
  rw [months]
  omega

theorem length_eq : m.length = monthLength m.months := by
  rw [length, monthLength, m.months_div.1, m.months_div.2]

theorem day_bounds : 1 ≤ m.day ∧ m.day ≤ m.length := m.isDate.2.2

theorem days_eq : m.days = monthStart m.months + (m.day - 1) := by
  rw [days, monthStart, m.months_div.1, m.months_div.2, dayNumber, dayNumber, Nat.sub_self,
    Nat.add_zero]

variable {m} {n : Moment}

theorem days_lt_iff : m.days < n.days ↔
    m.months < n.months ∨ m.months = n.months ∧ m.day < n.day := by
  have hm := m.day_bounds
  have hn := n.day_bounds
  rw [length_eq] at hm hn
  rw [days_eq, days_eq]
  rcases lt_trichotomy m.months n.months with hlt | heq | hgt
  · have hstart := monthStart_lt hlt
    omega
  · rw [heq]
    omega
  · have hstart := monthStart_lt hgt
    omega

theorem lt_iff : m < n ↔ m.days < n.days ∨ m.days = n.days ∧ m.time < n.time := by
  have hm := m.time_lt
  have hn := n.time_lt
  show m.instant < n.instant ↔ _
  rw [instant, instant]
  rw [DAY] at *
  omega

theorem le_iff : m ≤ n ↔ m.days < n.days ∨ m.days = n.days ∧ m.time ≤ n.time := by
  have hm := m.time_lt
  have hn := n.time_lt
  show m.instant ≤ n.instant ↔ _
  rw [instant, instant]
  rw [DAY] at *
  omega

theorem days_eq_iff : m.days = n.days ↔ m.months = n.months ∧ m.day = n.day := by
  have hlt := @days_lt_iff m n
  have hgt := @days_lt_iff n m
  omega

theorem length_congr (h : m.months = n.months) : m.length = n.length := by
  rw [length_eq, length_eq, h]

end Moment

/-! ### `add_months` -/

theorem clamped_isDate {year month day : ℕ} (hm : 1 ≤ month) (hm' : month ≤ 12) (hday : 1 ≤ day) :
    IsDate year month (min day (daysInMonth year month)) :=
  ⟨hm, hm', le_min hday (daysInMonth_pos hm hm'), min_le_right _ _⟩

/-- `add_months`; a year that is out of range is a `ValueError` of `replace`. -/
def addMonths (moment : Moment) (months : ℤ) : Except PyError Moment :=
  let total : ℤ := moment.months + months
  let year := total / 12
  let month := total % 12 + 1
  if h : 1 ≤ year ∧ year ≤ 9999 then
    .ok { year := year.toNat
          month := month.toNat
          day := min moment.day (daysInMonth year.toNat month.toNat)
          time := moment.time
          isDate := clamped_isDate (by omega) (by omega) moment.isDate.2.2.1
          years := by omega
          time_lt := moment.time_lt }
  else .error .valueError

/-- A moment some months later: in that month, at the time of day, the day clamped. -/
structure Shifted (moment : Moment) (months : ℤ) (shifted : Moment) : Prop where
  months : (shifted.months : ℤ) = moment.months + months
  day : shifted.day = min moment.day shifted.length
  time : shifted.time = moment.time

section Shift
variable {m m' r r' : Moment} {k k' : ℤ}

theorem addMonths_exists (h : 1 ≤ (m.months + k) / 12) (h' : (m.months + k) / 12 ≤ 9999) :
    ∃ r, addMonths m k = .ok r := by
  rw [addMonths, dif_pos ⟨h, h'⟩]
  exact ⟨_, rfl⟩

theorem addMonths_shifted (h : addMonths m k = .ok r) : Shifted m k r := by
  rw [addMonths] at h
  split at h
  · rename_i hyear
    cases h
    refine ⟨?_, rfl, rfl⟩
    show ((((m.months + k : ℤ) / 12).toNat * 12 + (((m.months + k : ℤ) % 12 + 1).toNat - 1) : ℕ) :
      ℤ) = m.months + k
    omega
  · cases h

theorem Shifted.addMonths_eq (h : Shifted m k r) : addMonths m k = .ok r := by
  have hdiv := r.months_div
  have hyears := r.years
  have hr := h.months
  obtain ⟨s, hs⟩ := @addMonths_exists m k (by omega) (by omega)
  have hshift := addMonths_shifted hs
  have hsr := hshift.months
  have hmonths : s.months = r.months := by omega
  have hlength := Moment.length_congr hmonths
  have hsdiv := s.months_div
  have hsame : s = r := by
    refine Moment.ext ?_ ?_ ?_ (hshift.time.trans h.time.symm)
    · omega
    · omega
    · rw [hshift.day, h.day, hlength]
  rw [hs, hsame]

theorem Shifted.date_mono (h : Shifted m k r) (h' : Shifted m' k r') (hle : m ≤ m') :
    r.days ≤ r'.days := by
  by_contra hlt
  rcases Moment.days_lt_iff.1 (not_le.1 hlt) with hmonths | ⟨hmonths, hday⟩
  · have hback : m'.days < m.days := Moment.days_lt_iff.2 (.inl (by
      have hr := h.months
      have hr' := h'.months
      omega))
    grind [Moment.le_iff]
  · have hback : m'.days < m.days := Moment.days_lt_iff.2 (.inr (by
      have hr := h.months
      have hr' := h'.months
      have hlength := Moment.length_congr hmonths
      have hd := h.day
      have hd' := h'.day
      omega))
    grind [Moment.le_iff]

/-- Of a later moment, an earlier time of day, and both days are clamped to the same one. -/
structure BothClamped (r m m' : Moment) : Prop where
  months : m.months = m'.months
  clamped : r.length ≤ m.day
  day : m.day < m'.day
  time : m'.time < m.time

/-- **Monotone**, but for two moments that are clamped to the same day. -/
theorem Shifted.mono_iff (h : Shifted m k r) (h' : Shifted m' k r') (hle : m ≤ m') :
    r ≤ r' ↔ ¬ BothClamped r m m' := by
  have hdate := h.date_mono h' hle
  have hr := h.months
  have hr' := h'.months
  have hd := h.day
  have hd' := h'.day
  have ht := h.time
  have ht' := h'.time
  constructor
  · rintro hrr ⟨hmonths, hclamped, hday, htime⟩
    grind [Moment.length_congr, Moment.days_eq_iff, Moment.le_iff]
  · intro hnot
    refine Moment.le_iff.2 ((Nat.lt_or_eq_of_le hdate).imp_right fun hsame => ⟨hsame, ?_⟩)
    obtain ⟨hmonths, hday⟩ := Moment.days_eq_iff.1 hsame
    have hlength := Moment.length_congr hmonths
    by_contra htime
    have hmm : m.months = m'.months := by omega
    rcases Moment.le_iff.1 hle with hlt | ⟨-, hle⟩
    · rcases Moment.days_lt_iff.1 hlt with hlt | ⟨-, hlt⟩
      · omega
      · exact hnot ⟨hmm, by omega, hlt, by omega⟩
    · omega

/-- **Strictly antitone** in the months that are gone back. -/
theorem Shifted.antitone (h : Shifted m (-k) r) (h' : Shifted m (-k') r') (hlt : k < k') :
    r' < r := by
  have hr := h.months
  have hr' := h'.months
  exact Moment.lt_iff.2 (.inl (Moment.days_lt_iff.2 (.inl (by omega))))

theorem Shifted.old (h : Shifted m (-k) r) (hle : m' ≤ r) (h' : Shifted m' k r') : r' ≤ m := by
  have hr := h.months
  have hr' := h'.months
  have hd := h.day
  have hd' := h'.day
  have ht := h.time
  have ht' := h'.time
  refine Moment.le_iff.2 ?_
  rcases Moment.le_iff.1 hle with hlt | ⟨heq, htime⟩
  · refine .inl (Moment.days_lt_iff.2 ((Moment.days_lt_iff.1 hlt).imp ?_ ?_))
    all_goals omega
  · obtain ⟨hmonths, hday⟩ := Moment.days_eq_iff.1 heq
    rcases Nat.lt_or_ge r'.day m.day with hlt | hge
    · exact .inl (Moment.days_lt_iff.2 (.inr ⟨by omega, hlt⟩))
    · exact .inr ⟨Moment.days_eq_iff.2 ⟨by omega, by omega⟩, by omega⟩

theorem addMonths_old (h : addMonths m (-k) = .ok r) (hk : 1 ≤ k) (hle : m' ≤ r) :
    ∃ b, addMonths m' k = .ok b ∧ b ≤ m := by
  have hshift := addMonths_shifted h
  have hmonths : m'.months ≤ r.months := by
    rcases Moment.le_iff.1 hle with hlt | ⟨heq, -⟩
    · grind [Moment.days_lt_iff]
    · exact (Moment.days_eq_iff.1 heq).1.le
  have hyears := m.years
  have hyears' := m'.years
  have hdiv := m.months_div.1
  have hdiv' := m'.months_div.1
  have hr := hshift.months
  obtain ⟨b, hb⟩ := @addMonths_exists m' k (by omega) (by omega)
  exact ⟨b, hb, hshift.old hle (addMonths_shifted hb)⟩

end Shift

/-! ### Days -/

namespace Moment

/-- The day before, at the same time; there is none before the year 1. -/
def yesterday (m : Moment) : Option Moment :=
  if h : 1 < m.day then
    some { m with
      day := m.day - 1
      isDate := ⟨m.isDate.1, m.isDate.2.1, by omega, (Nat.sub_le _ _).trans m.isDate.2.2.2⟩ }
  else if h : 1 < m.month then
    some { m with
      month := m.month - 1
      day := daysInMonth m.year (m.month - 1)
      isDate :=
        have hmonth := m.isDate.2.1
        ⟨by omega, by omega, daysInMonth_pos (by omega) (by omega), le_rfl⟩ }
  else if h : 1 < m.year then
    some { m with
      year := m.year - 1
      month := 12
      day := 31
      isDate := ⟨by omega, le_rfl, by omega, le_rfl⟩
      years := by
        have hyears := m.years
        omega }
  else none

def daysBack (m : Moment) : ℕ → Option Moment
  | 0 => some m
  | n + 1 => (m.daysBack n).bind yesterday

end Moment

/-- `moment - timedelta(days=days)`. -/
def minusDays (moment : Moment) (days : ℕ) : Except PyError Moment :=
  (moment.daysBack days).elim (.error .overflowError) .ok

section Days
variable {m r : Moment} {n : ℕ}

theorem days_of_prev (h : (r.months = m.months ∧ r.day + 1 = m.day) ∨
    (r.months + 1 = m.months ∧ r.day = r.length ∧ m.day = 1)) : r.days + 1 = m.days := by
  have hr := r.day_bounds
  grind [Moment.days_eq, monthStart_succ, Moment.length_eq]

theorem yesterday_days (h : m.yesterday = some r) : r.days + 1 = m.days ∧ r.time = m.time := by
  have hday := m.isDate.2.2.1
  have hmonth := m.isDate.1
  rw [Moment.yesterday] at h
  split at h
  · cases h
    refine ⟨days_of_prev (.inl ⟨rfl, ?_⟩), rfl⟩
    show m.day - 1 + 1 = m.day
    omega
  · split at h
    · cases h
      refine ⟨days_of_prev (.inr ⟨?_, rfl, by omega⟩), rfl⟩
      show m.year * 12 + (m.month - 1 - 1) + 1 = m.year * 12 + (m.month - 1)
      omega
    · split at h
      · cases h
        refine ⟨days_of_prev (.inr ⟨?_, rfl, by omega⟩), rfl⟩
        show (m.year - 1) * 12 + (12 - 1) + 1 = m.year * 12 + (m.month - 1)
        omega
      · cases h

def FIRST : ℕ := dayNumber 1 1 1

theorem first_le (m : Moment) : FIRST ≤ m.days := by
  have hyears := m.years
  rw [m.days_eq]
  rcases Nat.lt_or_ge 12 m.months with hlt | hge
  · exact (Nat.le_add_right _ (monthLength 12)).trans ((monthStart_lt hlt).trans (by omega))
  · have hmonths : m.months = 12 := by
      rw [Moment.months] at *
      omega
    rw [hmonths]
    exact Nat.le_add_right _ _

theorem yesterday_none (h : m.yesterday = none) : m.days = FIRST := by
  have hdate := m.isDate
  have hyears := m.years
  rw [Moment.yesterday] at h
  split at h
  · cases h
  · split at h
    · cases h
    · split at h
      · cases h
      · obtain ⟨hyear, hmonth, hday⟩ : m.year = 1 ∧ m.month = 1 ∧ m.day = 1 := by
          have hd := hdate.2.2.1
          have hm := hdate.1
          omega
        rw [Moment.days, hyear, hmonth, hday]
        rfl

theorem daysBack_days (h : m.daysBack n = some r) : r.days + n = m.days ∧ r.time = m.time := by
  induction n generalizing r with
  | zero =>
    cases h
    exact ⟨rfl, rfl⟩
  | succ n ih =>
    obtain ⟨s, hs, hr⟩ := Option.bind_eq_some_iff.1 h
    grind [yesterday_days]

theorem daysBack_exists (h : FIRST + n ≤ m.days) : ∃ r, m.daysBack n = some r := by
  induction n with
  | zero => exact ⟨m, rfl⟩
  | succ n ih =>
    obtain ⟨s, hs⟩ := ih (by omega)
    have hdays := (daysBack_days hs).1
    cases hy : s.yesterday with
    | none =>
      have hfirst := yesterday_none hy
      omega
    | some r => simp_all [Moment.daysBack]

theorem minusDays_ok_iff : (∃ r, minusDays m n = .ok r) ↔ FIRST + n ≤ m.days := by
  rw [minusDays]
  constructor
  · rintro ⟨r, hr⟩
    cases hback : m.daysBack n with
    | none =>
      rw [hback] at hr
      cases hr
    | some s =>
      have hdays := (daysBack_days hback).1
      have hfirst := first_le s
      omega
  · intro h
    obtain ⟨r, hr⟩ := daysBack_exists h
    exact ⟨r, by rw [hr]; rfl⟩

end Days

/-! ### The window -/

def normalizeRetentionMonths (py : PyText) : Value → Except PyError (Option ℤ)
  | .null => .ok none
  | value => match pyIntOf py value with
    | .ok months => .ok (SettingsWrites.normalizeRetentionMonths months)
    | .error .typeError | .error .valueError => .ok none
    | .error e => .error e

def retentionWindowDays (py : PyText) (months : Value) (now : Moment) : Except PyError ℤ := do
  match ← normalizeRetentionMonths py months with
  | none => .ok 0
  | some normalized => (addMonths now (-normalized)).map fun earlier =>
      (now.instant - earlier.instant) / DAY

/-- `int(settings.get("audit_retention_days") or 0)`, nothing where that is no number. -/
def retentionDays (py : PyText) (settings : Dict) : Except PyError (Option ℤ) :=
  match pyIntOf py (Value.orElse (settings.lookup "audit_retention_days") (.int 0)) with
  | .ok days => .ok (some days)
  | .error .typeError | .error .valueError => .ok none
  | .error e => .error e

def retentionCutoff (py : PyText) (settings : Dict) (now : Moment) :
    Except PyError (Option Moment) := do
  match ← normalizeRetentionMonths py ((settings.lookup "audit_retention_months").getD .null) with
  | some months => (addMonths now (-months)).map some
  | none =>
    match ← retentionDays py settings with
    | none => .ok none
    | some days => if days ≤ 0 then .ok none else (minusDays now days.toNat).map some

section Cutoff
variable {py : PyText} {settings : Dict} {now : Moment} {k : ℤ}

def KeepsMonths (py : PyText) (settings : Dict) (k : ℤ) : Prop :=
  normalizeRetentionMonths py ((settings.lookup "audit_retention_months").getD .null) = .ok (some k)

theorem retentionCutoff_months (h : KeepsMonths py settings k) :
    retentionCutoff py settings now = (addMonths now (-k)).map some := by
  rw [retentionCutoff, h]
  rfl

theorem cutoff_addMonths {c : Moment} (h : KeepsMonths py settings k)
    (hc : retentionCutoff py settings now = .ok (some c)) : addMonths now (-k) = .ok c := by
  grind [retentionCutoff_months, map_eq_ok]

end Cutoff

/-! ### What is promised -/

structure Kept (k : ℤ) : Prop where
  shifts : ∀ m : Moment, 1 ≤ ((m.months : ℤ) - k) / 12 →
    ∃ r, addMonths m (-k) = .ok r ∧ Shifted m (-k) r
  monotone : ∀ m m' r r', addMonths m (-k) = .ok r → addMonths m' (-k) = .ok r' → m ≤ m' →
    r.days ≤ r'.days ∧ (r ≤ r' ↔ ¬ BothClamped r m m')
  antitone : ∀ m k' r r', k < k' → addMonths m (-k) = .ok r → addMonths m (-k') = .ok r' → r' < r
  back : ∀ m r, addMonths m (-k) = .ok r → ∃ b, addMonths r k = .ok b ∧ b ≤ m
  /-- The cutoff is there, and moves as the months do. -/
  cutoff : ∀ py settings, KeepsMonths py settings k →
    (∀ now : Moment, 1 ≤ ((now.months : ℤ) - k) / 12 →
      ∃ c, retentionCutoff py settings now = .ok (some c)) ∧
    ∀ now now' c c', retentionCutoff py settings now = .ok (some c) →
      retentionCutoff py settings now' = .ok (some c') → now ≤ now' →
      c.days ≤ c'.days ∧ (c ≤ c' ↔ ¬ BothClamped c now now')
  /-- What is less than the months old is not before the cutoff. -/
  fresh : ∀ py settings now c t, KeepsMonths py settings k →
    retentionCutoff py settings now = .ok (some c) →
    (∀ b, addMonths t k = .ok b → now < b) → c ≤ t

/-- **The window of months is kept.** -/
theorem retention_months_kept (k : ℤ) (hk : 1 ≤ k ∧ k ≤ MAX_RETENTION_MONTHS) : Kept k := by
  have hshifts : ∀ m : Moment, 1 ≤ ((m.months : ℤ) - k) / 12 → ∃ r, addMonths m (-k) = .ok r := by
    intro m hyear
    have hyears := m.years
    have hdiv := m.months_div.1
    exact addMonths_exists (by omega) (by omega)
  have hmonotone : ∀ m m' r r', addMonths m (-k) = .ok r → addMonths m' (-k) = .ok r' → m ≤ m' →
      r.days ≤ r'.days ∧ (r ≤ r' ↔ ¬ BothClamped r m m') := by
    intro m m' r r' hr hr' hle
    exact ⟨(addMonths_shifted hr).date_mono (addMonths_shifted hr') hle,
      (addMonths_shifted hr).mono_iff (addMonths_shifted hr') hle⟩
  refine ⟨fun m hyear => ?_, hmonotone, fun m k' r r' hlt hr hr' => ?_, fun m r hr => ?_,
    fun py settings hsettings => ⟨fun now hyear => ?_, fun now now' c c' hc hc' hle => ?_⟩,
    fun py settings now c t hsettings hc hfresh => ?_⟩
  · grind [addMonths_shifted]
  · exact (addMonths_shifted hr).antitone (addMonths_shifted hr') hlt
  · exact addMonths_old hr hk.1 le_rfl
  · obtain ⟨c, hc⟩ := hshifts now hyear
    refine ⟨c, ?_⟩
    rw [retentionCutoff_months hsettings, hc]
    rfl
  · grind [cutoff_addMonths]
  · by_contra hlt
    have hle : t ≤ c := by
      show t.instant ≤ c.instant
      exact le_of_lt (not_le.1 hlt)
    obtain ⟨b, hb, hbnow⟩ := addMonths_old (cutoff_addMonths hsettings hc) hk.1 hle
    grind

theorem two_years_kept : (1 ≤ (24 : ℤ) ∧ 24 ≤ MAX_RETENTION_MONTHS) ∧ Kept 24 :=
  ⟨⟨by decide, by decide⟩, retention_months_kept 24 ⟨by decide, by decide⟩⟩

def march (day time : ℕ) (hday : 1 ≤ day ∧ day ≤ 31) (htime : time < DAY) : Moment where
  year := 2025
  month := 3
  day := day
  time := time
  isDate := ⟨by decide, by decide, hday.1, hday.2⟩
  years := ⟨by decide, by decide⟩
  time_lt := htime

def february (time : ℕ) (htime : time < DAY) : Moment where
  year := 2025
  month := 2
  day := 28
  time := time
  isDate := ⟨by decide, by decide, by decide, by decide⟩
  years := ⟨by decide, by decide⟩
  time_lt := htime

theorem march_back {day time : ℕ} (hday : 1 ≤ day ∧ day ≤ 31) (htime : time < DAY)
    (hlate : 28 ≤ day) : addMonths (march day time hday htime) (-1) = .ok (february time htime) := by
  have hmonths : ((2025 * 12 + (2 - 1) : ℕ) : ℤ) = ((2025 * 12 + (3 - 1) : ℕ) : ℤ) + -1 := by
    norm_num
  have hlast : 28 = min day (daysInMonth 2025 2) := by
    have hlength : daysInMonth 2025 2 = 28 := by decide
    rw [hlength, Nat.min_eq_right hlate]
  exact Shifted.addMonths_eq ⟨hmonths, hlast, rfl⟩

/-- From 23:00 of the 30th of March to 01:00 of the 31st the cutoff of one month goes back, from
    23:00 of the 28th of February to 01:00. -/
theorem cutoff_goes_back : ∃ now now' c c' : Moment,
    now < now' ∧ addMonths now (-1) = .ok c ∧ addMonths now' (-1) = .ok c' ∧
      retentionCutoff asciiText [("audit_retention_months", .int 1)] now = .ok (some c) ∧
      retentionCutoff asciiText [("audit_retention_months", .int 1)] now' = .ok (some c') ∧
      c' < c := by
  have hcutoff : ∀ day time hday htime, 28 ≤ day →
      retentionCutoff asciiText [("audit_retention_months", .int 1)] (march day time hday htime) =
        .ok (some (february time htime)) := by
    intro day time hday htime hlate
    have hkeeps : KeepsMonths asciiText [("audit_retention_months", .int 1)] 1 := rfl
    rw [retentionCutoff_months hkeeps, march_back hday htime hlate]
    rfl
  refine ⟨march 30 (23 * 3600 * 10 ^ 6) (by decide) (by norm_num [DAY]),
    march 31 (3600 * 10 ^ 6) (by decide) (by norm_num [DAY]),
    february (23 * 3600 * 10 ^ 6) (by norm_num [DAY]), february (3600 * 10 ^ 6) (by norm_num [DAY]),
    ?_, march_back _ _ (by decide), march_back _ _ (by decide), hcutoff _ _ _ _ (by decide),
    hcutoff _ _ _ _ (by decide), ?_⟩
  · exact Moment.lt_iff.2 (.inl (Moment.days_lt_iff.2 (.inr ⟨rfl, by decide⟩)))
  · exact Moment.lt_iff.2 (.inr ⟨Moment.days_eq_iff.2 ⟨rfl, rfl⟩, by decide⟩)

end RuleMind.RetentionMonths
