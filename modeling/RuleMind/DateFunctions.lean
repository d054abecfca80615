/-
  The calendar functions of `app/excel_functions.py`: `DATE`, `EDATE`, `EOMONTH` and `DATEDIF`.
-/
import RuleMind.CalendarDays

namespace RuleMind.DateFunctions

@[ext]
structure Date where
  year : ℕ
  month : ℕ
  day : ℕ
  years : 1 ≤ year ∧ year ≤ 9999
  isDate : IsDate year month day

instance (year month day : ℕ) : Decidable (IsDate year month day) :=
  inferInstanceAs (Decidable (_ ∧ _ ∧ _ ∧ _))

/-- `date(y, m, d)`. -/
def date (y m d : ℤ) : Option Date :=
  if h : (1 ≤ y.toNat ∧ y.toNat ≤ 9999) ∧ IsDate y.toNat m.toNat d.toNat then
    some ⟨y.toNat, m.toNat, d.toNat, h.1, h.2⟩
  else none

/-- Dates are compared field by field. -/
def Date.le (s e : Date) : Prop :=
  s.year < e.year ∨ s.year = e.year ∧ (s.month < e.month ∨ s.month = e.month ∧ s.day ≤ e.day)

instance : LE Date := ⟨Date.le⟩

/-- The loop on a month past the end of the year, -/
def carry (y m : ℤ) : ℤ × ℤ := if 12 < m then carry (y + 1) (m - 12) else (y, m)
termination_by m.toNat

/-- and the one on a month before its beginning. -/
def borrow (y m : ℤ) : ℤ × ℤ := if m < 1 then borrow (y - 1) (m + 12) else (y, m)
termination_by (1 - m).toNat

def normalized (y m : ℤ) : ℤ × ℤ :=
  let (y, m) := carry y m
  borrow y m

def DATE (year month day : ℤ) : Option Date :=
  let (y, m) := normalized year month
  date y m (min day 28)

/-- `calendar.monthrange(y, m)[1]`. -/
def maxDay (y m : ℤ) : ℤ := daysInMonth y.toNat m.toNat

def EDATE (sd : Date) (months : ℤ) : Option Date :=
  let (y, m) := normalized sd.year (sd.month + months)
  date y m (min sd.day (maxDay y m))

def EOMONTH (sd : Date) (months : ℤ) : Option Date :=
  let (y, m) := normalized sd.year (sd.month + months)
  date y m (maxDay y m)

/-- `(ed - sd).days`. -/
def daysBetween (sd ed : Date) : ℤ :=
  dayNumber ed.year ed.month ed.day - dayNumber sd.year sd.month sd.day

def DATEDIF (sd ed : Date) (unit : String) : Option ℤ :=
  match String.ofList (unit.toList.map Char.toUpper) with
  | "M" => some (((ed.year : ℤ) - sd.year) * 12 + ed.month - sd.month)
  | "Y" => some ((ed.year : ℤ) - sd.year)
  | "MD" => some ((ed.day : ℤ) - sd.day)
  | "YM" => some (((ed.month : ℤ) - sd.month) % 12)
  | "YD" => (date sd.year ed.month ed.day).map fun d => daysBetween sd d % 365
  | _ => some (daysBetween sd ed)

/-! ### Months -/

/-- The months up to a month, from the beginning of the year 0. -/
def Date.months (d : Date) : ℤ := d.year * 12 + d.month - 1

theorem normalized_eq (y m : ℤ) :
    normalized y m = ((y * 12 + m - 1) / 12, (y * 12 + m - 1) % 12 + 1) := by
  have hcarry : ∀ y m, (carry y m).1 * 12 + (carry y m).2 = y * 12 + m ∧ (carry y m).2 ≤ 12 := by
    intro y m
    fun_induction carry y m with
    | case1 y m _ ih => exact ⟨by omega, ih.2⟩
    | case2 y m h => exact ⟨rfl, not_lt.1 h⟩
  have hborrow : ∀ y m, m ≤ 12 → (borrow y m).1 * 12 + (borrow y m).2 = y * 12 + m ∧
      1 ≤ (borrow y m).2 ∧ (borrow y m).2 ≤ 12 := by
    intro y m
    fun_induction borrow y m with
    | case1 y m _ ih => exact fun hm => by have := ih (by omega); exact ⟨by omega, this.2⟩
    | case2 y m h => exact fun hm => ⟨rfl, not_lt.1 h, hm⟩
  obtain ⟨h₁, h₂⟩ := hcarry y m
  obtain ⟨h₃, h₄, h₅⟩ := hborrow (carry y m).1 _ h₂
  exact Prod.ext (by simp only [normalized]; omega) (by simp only [normalized]; omega)

theorem daysInMonth_bounds {year month : ℕ} (h : 1 ≤ month ∧ month ≤ 12) :
    28 ≤ daysInMonth year month ∧ daysInMonth year month ≤ 31 := by
  obtain ⟨h, h'⟩ := h
  rw [daysInMonth]
  split
  · norm_num
  · interval_cases month <;> decide

section
variable {s e d : Date} {m : ℤ}

theorem bounds (d : Date) : 1 ≤ d.month ∧ d.month ≤ 12 ∧ 1 ≤ d.day ∧
    d.day ≤ daysInMonth d.year d.month ∧ d.day ≤ 31 := by
  obtain ⟨h, h', hd, hd'⟩ := d.isDate
  exact ⟨h, h', hd, hd', hd'.trans (daysInMonth_bounds ⟨h, h'⟩).2⟩

theorem le_iff : s ≤ e ↔ s.months < e.months ∨ s.months = e.months ∧ s.day ≤ e.day := by
  have := bounds s
  have := bounds e
  show Date.le s e ↔ _
  unfold Date.le Date.months
  omega

theorem date_eq_some {n : ℤ} (day : ℕ → ℕ) :
    date (n / 12) (n % 12 + 1) (day (daysInMonth (n / 12).toNat (n % 12 + 1).toNat)) = some d ↔
      d.months = n ∧ d.day = day (daysInMonth d.year d.month) := by
  have := bounds d
  have := d.years
  unfold date Date.months
  constructor
  · intro h
    split at h
    · next hdate =>
      cases h
      obtain ⟨hmonth, -⟩ := hdate.2
      exact ⟨by simp only; omega, by simp⟩
    · cases h
  · rintro ⟨rfl, hday⟩
    have hy : (((d.year : ℤ) * 12 + d.month - 1) / 12).toNat = d.year := by omega
    have hm : (((d.year : ℤ) * 12 + d.month - 1) % 12 + 1).toNat = d.month := by omega
    simp only [hy, hm, Int.toNat_natCast, ← hday]
    rw [dif_pos ⟨d.years, d.isDate⟩]

theorem date_exists {n : ℤ} (hn : 12 ≤ n ∧ n < 120000) {day : ℕ → ℕ}
    (hday : ∀ length, 28 ≤ length → 1 ≤ day length ∧ day length ≤ length) :
    ∃ d, date (n / 12) (n % 12 + 1) (day (daysInMonth (n / 12).toNat (n % 12 + 1).toNat)) =
      some d := by
  have hmonth : 1 ≤ (n % 12 + 1).toNat ∧ (n % 12 + 1).toNat ≤ 12 := by omega
  have := hday _ (@daysInMonth_bounds (n / 12).toNat _ hmonth).1
  refine ⟨_, dif_pos ⟨by omega, ?_⟩⟩
  simpa [IsDate, hmonth] using this

/-- The date a shift comes to: in the month that many months later, on a day of it. -/
def Shifted (s : Date) (m : ℤ) (day : ℕ → ℕ) (d : Date) : Prop :=
  d.months = s.months + m ∧ d.day = day (daysInMonth d.year d.month)

theorem EDATE_iff : EDATE s m = some d ↔ Shifted s m (min s.day) d := by
  rw [Shifted, ← date_eq_some, EDATE, normalized_eq]
  simp only [maxDay, Date.months, Nat.cast_min, add_sub_right_comm, add_assoc]

theorem EOMONTH_iff : EOMONTH s m = some d ↔ Shifted s m id d := by
  rw [Shifted, ← date_eq_some, EOMONTH, normalized_eq]
  simp only [maxDay, Date.months, id, add_sub_right_comm, add_assoc]

theorem DATE_iff : DATE s.year s.month s.day = some d ↔ Shifted s 0 (fun _ => min s.day 28) d := by
  have := @date_eq_some d (s.months + 0) fun _ => min s.day 28
  rw [Shifted, ← this, DATE, normalized_eq]
  simp [Date.months]

/-- The shift stays within the years 1 to 9999. -/
def InRange (s : Date) (m : ℤ) : Prop := 12 ≤ s.months + m ∧ s.months + m < 120000

theorem EDATE_exists (h : InRange s m) : ∃ d, EDATE s m = some d := by
  have := bounds s
  obtain ⟨d, hd⟩ := @date_exists _ h (min s.day) fun length hl => by omega
  exact ⟨d, EDATE_iff.2 ((date_eq_some _).1 hd)⟩

theorem EOMONTH_exists (h : InRange s m) : ∃ d, EOMONTH s m = some d := by
  obtain ⟨d, hd⟩ := @date_exists _ h id fun length hl => ⟨by simp; omega, le_rfl⟩
  exact ⟨d, EOMONTH_iff.2 ((date_eq_some _).1 hd)⟩

/-! ### The calendar -/

/-- The shifts of a date, so many months each, that have come by another date. -/
def Elapsed (s e : Date) (unit : ℤ) : Set ℤ := {k | ∃ d, EDATE s (unit * k) = some d ∧ d ≤ e}

/-- The functions obey the calendar on two dates and a shift of the first. -/
structure Obeys (s e : Date) (m : ℤ) : Prop where
  date : DATE s.year s.month s.day = some s
  edate : ∃ d, EDATE s m = some d ∧ Shifted s m (min s.day) d
  eomonth : ∃ d, EOMONTH s m = some d ∧ Shifted s m id d
  months : ∃ k, DATEDIF s e "M" = some k ∧ IsGreatest (Elapsed s e 1) k
  years : ∃ k, DATEDIF s e "Y" = some k ∧ IsGreatest (Elapsed s e 12) k
  rest : ∃ k m y, DATEDIF s e "YM" = some k ∧ DATEDIF s e "M" = some m ∧
    DATEDIF s e "Y" = some y ∧ k = m - 12 * y

theorem DATEDIF_months (s e : Date) : DATEDIF s e "M" = some (e.months - s.months) := by
  have : DATEDIF s e "M" = some (((e.year : ℤ) - s.year) * 12 + e.month - s.month) := rfl
  rw [this]
  congr 1
  unfold Date.months
  ring

theorem elapsed_iff {k unit : ℤ} : k ∈ Elapsed s e unit ↔ InRange s (unit * k) ∧
    (s.months + unit * k < e.months ∨ s.months + unit * k = e.months ∧
      min s.day (daysInMonth e.year e.month) ≤ e.day) := by
  have hlength : ∀ d : Date, d.months = e.months → d.year = e.year ∧ d.month = e.month := by
    intro d h
    have := bounds d
    have := bounds e
    unfold Date.months at h
    omega
  constructor
  · rintro ⟨d, hd, hle⟩
    obtain ⟨hmonths, hday⟩ := EDATE_iff.1 hd
    have := bounds d
    have := d.years
    refine ⟨by rw [InRange, ← hmonths]; unfold Date.months; omega, ?_⟩
    rw [le_iff, hmonths, hday] at hle
    refine hle.imp_right fun h => ⟨h.1, ?_⟩
    obtain ⟨hyear, hmonth⟩ := hlength d (hmonths.trans h.1)
    rw [← hyear, ← hmonth]
    exact h.2
  · rintro ⟨hrange, h⟩
    obtain ⟨d, hd⟩ := EDATE_exists hrange
    obtain ⟨hmonths, hday⟩ := EDATE_iff.1 hd
    refine ⟨d, hd, ?_⟩
    rw [le_iff, hmonths, hday]
    refine h.imp_right fun h => ⟨h.1, ?_⟩
    obtain ⟨hyear, hmonth⟩ := hlength d (hmonths.trans h.1)
    rw [hyear, hmonth]
    exact h.2

/-- **The functions obey the calendar** if and only if the first date is not past the 28th, and
    neither its day nor its month of the year is past that of the second. -/
theorem obeys_iff (e : Date) (hm : InRange s m) :
    Obeys s e m ↔ s.day ≤ 28 ∧ s.day ≤ e.day ∧ s.month ≤ e.month := by
  have hs := bounds s
  have he := bounds e
  have hsy := s.years
  have hey := e.years
  have hlength := (@daysInMonth_bounds e.year _ ⟨he.1, he.2.1⟩).1
  have hmonths : s.months = s.year * 12 + s.month - 1 := rfl
  have hmonths' : e.months = e.year * 12 + e.month - 1 := rfl
  constructor
  · intro h
    have hday : s.day ≤ 28 := by
      have : s.day = min s.day 28 := (DATE_iff.1 h.date).2
      omega
    obtain ⟨k, hk, hgreatest⟩ := h.months
    obtain ⟨y, hy, hgreatest'⟩ := h.years
    cases (DATEDIF_months s e).symm.trans hk
    cases (rfl : DATEDIF s e "Y" = some ((e.year : ℤ) - s.year)).symm.trans hy
    have hcome := (elapsed_iff.1 hgreatest.1).2
    have hcome' := (elapsed_iff.1 hgreatest'.1).2
    omega
  · rintro ⟨hday, hday', hmonth⟩
    obtain ⟨d, hd⟩ := EDATE_exists hm
    obtain ⟨d', hd'⟩ := EOMONTH_exists hm
    refine ⟨DATE_iff.2 ⟨by omega, (min_eq_left hday).symm⟩, ⟨d, hd, EDATE_iff.1 hd⟩, ⟨d', hd', EOMONTH_iff.1 hd'⟩,
      ⟨_, DATEDIF_months s e, ?_, fun k hk => ?_⟩, ⟨_, rfl, ?_, fun k hk => ?_⟩,
      ⟨_, _, _, rfl, DATEDIF_months s e, rfl, ?_⟩⟩
    · refine elapsed_iff.2 ⟨?_, ?_⟩
      · unfold InRange
        omega
      · omega
    · have := (elapsed_iff.1 hk).2
      omega
    · refine elapsed_iff.2 ⟨?_, ?_⟩
      · unfold InRange
        omega
      · omega
    · have := (elapsed_iff.1 hk).2
      omega
    · omega

end

/-- 15 January and 20 March 2024. -/
def january : Date := ⟨2024, 1, 15, by decide, by decide⟩

def march : Date := ⟨2024, 3, 20, by decide, by decide⟩

theorem obeys_in_march : Obeys january march 1 ↔
    january.day ≤ 28 ∧ january.day ≤ march.day ∧ january.month ≤ march.month :=
  obeys_iff march ⟨by decide, by decide⟩

/-- From 31 January to 1 March a month has gone by and `DATEDIF` counts two; `DATE` makes the 28th
    of the 31st. -/
theorem unfinished_month_counts : ∃ s e : Date, s ≤ e ∧ DATEDIF s e "M" = some 2 ∧
    2 ∉ Elapsed s e 1 ∧ DATE 2024 1 31 = date 2024 1 28 := by
  refine ⟨⟨2024, 1, 31, by decide, by decide⟩, ⟨2024, 3, 1, by decide, by decide⟩,
    .inr ⟨rfl, .inl (by decide)⟩, (DATEDIF_months _ _).trans (by decide), fun h => ?_, ?_⟩
  · have := (elapsed_iff.1 h).2
    simp [Date.months, daysInMonth] at this
  · simp [DATE, normalized_eq]

end RuleMind.DateFunctions
