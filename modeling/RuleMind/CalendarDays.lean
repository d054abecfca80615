/-
  The civil-day arithmetic of `app/logic.py` against the calendar.

  The calendar is given by its tables: the length of each month, leap years, and which day
  follows which.  A date counts as many days as the years, months and days before it have.
-/
import RuleMind.Compare
import Mathlib.Tactic.IntervalCases

namespace RuleMind

/-! ### The calendar -/

def IsDate (year month day : ℕ) : Prop :=
  1 ≤ month ∧ month ≤ 12 ∧ 1 ≤ day ∧ day ≤ daysInMonth year month

def nextDay (year month day : ℕ) : ℕ × ℕ × ℕ :=
  if day < daysInMonth year month then (year, month, day + 1)
  else if month < 12 then (year, month + 1, 1)
  else (year + 1, 1, 1)

def yearLength (year : ℕ) : ℕ := if isLeapYear year then 366 else 365

def daysBeforeYear : ℕ → ℕ
  | 0 => 0
  | year + 1 => daysBeforeYear year + yearLength year

def daysOfMonths (year : ℕ) : ℕ → ℕ
  | 0 => 0
  | month + 1 => daysOfMonths year month + daysInMonth year (month + 1)

/-- The days before a date, counted from the beginning of the year 0. -/
def dayNumber (year month day : ℕ) : ℕ :=
  daysBeforeYear year + daysOfMonths year (month - 1) + (day - 1)

/-! ### The closed formula -/

section Formula
variable {year month day : ℕ}

theorem leap_cases (year : ℕ) :
    (isLeapYear year = true ∧ (year % 4 = 0 ∧ year % 100 ≠ 0 ∨ year % 400 = 0) ∧
      daysInMonth year 2 = 29 ∧ yearLength year = 366) ∨
    (isLeapYear year = false ∧ ¬ (year % 4 = 0 ∧ year % 100 ≠ 0 ∨ year % 400 = 0) ∧
      daysInMonth year 2 = 28 ∧ yearLength year = 365) := by
  cases h : isLeapYear year with
  | true => simp_all [daysInMonth, yearLength, isLeapYear]
  | false => simp_all [daysInMonth, yearLength, isLeapYear]

theorem daysFromCivil_day (y m d : ℤ) : daysFromCivil y m d = daysFromCivil y m 1 + (d - 1) := by
  simp only [daysFromCivil]
  ring

/-- The days before the first of March of a year. -/
def daysBeforeMarch (year : ℤ) : ℤ :=
  let era := (if 0 ≤ year then year else year - 399) / 400
  let yoe := year - era * 400
  era * 146097 + (yoe * 365 + yoe / 4 - yoe / 100) - 719468

theorem daysFromCivil_split (y m d : ℤ) :
    daysFromCivil y m d = daysBeforeMarch (y - if m ≤ 2 then 1 else 0) +
      (153 * (m + if m > 2 then -3 else 9) + 2) / 5 + (d - 1) := by
  simp only [daysFromCivil, daysBeforeMarch]
  ring

/-- Without the eras of 400 years. -/
theorem daysBeforeMarch_eq {y : ℤ} (hy : -1 ≤ y) :
    daysBeforeMarch y = 365 * y + y / 4 - y / 100 + y / 400 - 719468 := by
  have hera : (if 0 ≤ y then y else y - 399) / 400 = y / 400 := by split <;> omega
  have hfour : (y - y / 400 * 400) / 4 = y / 4 - 100 * (y / 400) := by omega
  have hhundred : (y - y / 400 * 400) / 100 = y / 100 - 4 * (y / 400) := by omega
  simp only [daysBeforeMarch, hera, hfour, hhundred]
  ring

theorem daysFromCivil_month (hm : 1 ≤ month) (hm' : month < 12) :
    daysFromCivil year (month + 1 : ℕ) 1 = daysFromCivil year month 1 + daysInMonth year month := by
  by_cases h2 : month = 2
  · subst h2
    have hmarch : daysFromCivil year (2 + 1 : ℕ) 1 = daysBeforeMarch year := by
      rw [daysFromCivil_split]
      norm_num
    have hfebruary : daysFromCivil year (2 : ℕ) 1 = daysBeforeMarch (year - 1) + 337 := by
      rw [daysFromCivil_split]
      norm_num
    rw [hmarch, hfebruary]
    rcases leap_cases year with ⟨-, h, hd, -⟩ | ⟨-, h, hd, -⟩
    all_goals
      rw [hd]
      rw [daysBeforeMarch_eq (by omega), daysBeforeMarch_eq (by omega)]
      omega
  · have hyear : (((month + 1 : ℕ) : ℤ) ≤ 2) ↔ ((month : ℤ) ≤ 2) := by omega
    have hdays : ∀ month < 12, 1 ≤ month → month ≠ 2 →
        (153 * (((month + 1 : ℕ) : ℤ) + if ((month + 1 : ℕ) : ℤ) > 2 then -3 else 9) + 2) / 5 =
          (153 * ((month : ℤ) + if (month : ℤ) > 2 then -3 else 9) + 2) / 5 +
            ([31, 28, 31, 30, 31, 30, 31, 31, 30, 31, 30, 31].getD (month - 1) 0 : ℕ) := by
      decide
    have hlength : daysInMonth year month =
        [31, 28, 31, 30, 31, 30, 31, 31, 30, 31, 30, 31].getD (month - 1) 0 :=
      if_neg fun h => h2 h.1
    rw [daysFromCivil_split, daysFromCivil_split, if_congr hyear rfl rfl, hdays month hm' hm h2,
      hlength]
    ring

theorem daysFromCivil_year (year : ℕ) :
    daysFromCivil (year + 1 : ℕ) 1 1 = daysFromCivil year 12 1 + 31 := by
  simp only [daysFromCivil]
  norm_num
  omega

theorem daysInMonth_december (year : ℕ) : daysInMonth year 12 = 31 := rfl

theorem daysFromCivil_next (h : IsDate year month day) :
    daysFromCivil (nextDay year month day).1 (nextDay year month day).2.1
      (nextDay year month day).2.2 = daysFromCivil year month day + 1 := by
  obtain ⟨hm, hm', hd, hd'⟩ := h
  unfold nextDay
  split
  · grind [daysFromCivil_day]
  · have hlast : day = daysInMonth year month := by omega
    split
    · rename_i hlt
      dsimp only
      rw [Nat.cast_one, daysFromCivil_month hm hlt, daysFromCivil_day year month day, hlast]
      omega
    · have hdec : month = 12 := by omega
      subst hdec
      rw [daysInMonth_december] at hlast
      dsimp only
      rw [Nat.cast_one, daysFromCivil_year, daysFromCivil_day year (12 : ℕ) day, hlast]
      norm_num
      ring

theorem daysFromCivil_months (hm : month < 12) :
    daysFromCivil year (month + 1 : ℕ) 1 = daysFromCivil year 1 1 + daysOfMonths year month := by
  induction month with
  | zero => simp [daysOfMonths]
  | succ month ih => grind [daysFromCivil_month, daysOfMonths]

theorem daysOfMonths_year (year : ℕ) : daysOfMonths year 12 = yearLength year := by
  rcases leap_cases year with ⟨-, -, hd, hy⟩ | ⟨-, -, hd, hy⟩
  all_goals
    rw [hy]
    simp only [daysOfMonths, hd]
    rfl

theorem daysFromCivil_years (year : ℕ) : daysFromCivil year 1 1 = daysBeforeYear year - 719528 := by
  induction year with
  | zero => rfl
  | succ year ih =>
    have hmonths : daysFromCivil year (11 + 1 : ℕ) 1 =
        daysFromCivil year 1 1 + daysOfMonths year 11 := daysFromCivil_months (by omega)
    have hyear : daysOfMonths year 11 + 31 = yearLength year := daysOfMonths_year year
    grind [daysFromCivil_year, daysBeforeYear]

theorem daysFromCivil_dayNumber (h : IsDate year month day) :
    daysFromCivil year month day = dayNumber year month day - 719528 := by
  obtain ⟨hm, hm', hd, -⟩ := h
  obtain ⟨month, rfl⟩ : ∃ m, month = m + 1 := ⟨month - 1, by omega⟩
  rw [daysFromCivil_day, daysFromCivil_months (by omega), daysFromCivil_years, dayNumber]
  push_cast
  omega

theorem daysFromCivil_epoch : daysFromCivil 1970 1 1 = 0 := by decide

theorem dayNumber_epoch : (dayNumber 1970 1 1 : ℤ) = 719528 := by
  have hdate : IsDate 1970 1 1 := ⟨le_rfl, by norm_num, le_rfl, by decide⟩
  grind [daysFromCivil_dayNumber, daysFromCivil_epoch]

theorem daysFromCivil_eq (h : IsDate year month day) :
    daysFromCivil year month day = dayNumber year month day - dayNumber 1970 1 1 := by
  rw [daysFromCivil_dayNumber h, dayNumber_epoch]

end Formula

/-! ### Instants -/

/-- The seconds of a date and time since 1970, by the calendar. -/
def Civil.instant (c : Civil) : ℤ :=
  ((dayNumber c.year c.month c.day : ℤ) - dayNumber 1970 1 1) * 86400 + c.hour * 3600 +
    c.minute * 60 + c.second - c.offset

theorem Civil.isDate {c : Civil} (h : c.valid = true) : IsDate c.year c.month c.day := by
  simp only [Civil.valid, Bool.and_eq_true, decide_eq_true_eq] at h
  exact ⟨h.1.1.1.1.1.1, h.1.1.1.1.1.2, h.1.1.1.1.2, h.1.1.1.2⟩

theorem Civil.epoch_eq {c : Civil} (h : c.valid = true) : c.epoch = c.instant := by
  rw [Civil.epoch, Civil.instant, daysFromCivil_eq (Civil.isDate h)]

section Texts
variable (py : PyText)

/-- The instant of the date, the time and the offset that a value is written with. -/
def writtenInstant (v : Value) : Option ℤ :=
  if v.isNull || v.isBool then none
  else do
    let c ← isoMatch py (pyStrip (py.str v).toList)
    if c.valid then some c.instant else none

/-- The decimal fraction of a date, in seconds: of its second, or of its minute if it has none. -/
def fractionOf (cs : List Char) : ℚ :=
  match cs.dropWhile (· ≠ '.') with
  | _ :: rest =>
    let (n, v, _) := takeDigits py rest.length 0 0 rest
    v / 10 ^ n * if (cs.takeWhile (· ≠ '.')).count ':' = 2 then 1 else 60
  | [] => 0

/-- The instant that a value denotes, if it is a date. -/
def instantOf (v : Value) : Option ℚ :=
  (writtenInstant py v).map fun s => s + fractionOf py (pyStrip (py.str v).toList)

variable {py}

theorem dateToEpoch_eq (v : Value) : dateToEpoch py v = writtenInstant py v := by
  grind -ring -linarith [dateToEpoch, writtenInstant, Civil.epoch_eq]

end Texts

section Dates
variable {py : PyText} {search : RegexSearch}

/-- **Civil-day arithmetic is the calendar**: the next day is one more, 1970 begins at zero, and
    dates are ordered as the instants they are written as, fractions left out. -/
theorem dates_as_instants : (∀ year month day, IsDate year month day →
      daysFromCivil (nextDay year month day).1 (nextDay year month day).2.1
        (nextDay year month day).2.2 = daysFromCivil year month day + 1) ∧
    daysFromCivil 1970 1 1 = 0 ∧
    ∀ {op : Operator} {a e e2 ft : Value} {s t : ℤ}, typeName ft = .ok "date" →
      op.isOrder = true ∨ op = .eq ∨ op = .ne →
      writtenInstant py a = some s → writtenInstant py e = some t →
      compare py search a op e e2 ft = .ok (ordered op s t (writtenInstant py e2)) := by
  simp_all [daysFromCivil_next, daysFromCivil_epoch, compare_dates, compareDates, dateToEpoch_eq]

/-- Half past three in India and the same instant in UTC. -/
theorem india_as_instants : compare decimalPy (fun _ _ => false)
    (.str "2026-08-08T03:22:19+05:30") .eq (.str "2026-08-07T21:52:19Z") .null (.str "date") =
      .ok true := by
  obtain ⟨-, -, h⟩ := @dates_as_instants decimalPy fun _ _ => false
  exact h (s := 1786139539) (t := 1786139539) (by decide) (by decide) (by decide +kernel)
    (by decide +kernel)

/-- Nine tenths of a second are no later than one. -/
theorem fractions_dropped : compare decimalPy (fun _ _ => false)
      (.str "2026-01-01T00:00:00.9Z") .gt (.str "2026-01-01T00:00:00.1Z") .null (.str "date") =
        .ok false ∧
    instantOf decimalPy (.str "2026-01-01T00:00:00.9Z") = some (1767225600 + 9 / 10) ∧
    instantOf decimalPy (.str "2026-01-01T00:00:00.1Z") = some (1767225600 + 1 / 10) := by
  refine ⟨toOption_eq_some.1 (by decide +kernel), by decide +kernel, by decide +kernel⟩

end Dates

end RuleMind
