/-
  The payments of a loan, in exact arithmetic: `PMT`, `IPMT`, `PPMT`, `FV`, `PV` and `CUMPRINC`
  of `app/excel_functions.py`, for a term that is a whole number of periods.
-/
import Mathlib.Tactic.FieldSimp
import Mathlib.Tactic.Linarith
import Mathlib.Tactic.Ring

namespace RuleMind.Loan

def PMT (rate : ℚ) (nper : ℕ) (pv fv : ℚ) (type : ℤ) : ℚ :=
  if rate = 0 then -(pv + fv) / nper
  else
    let q := (1 + rate) ^ nper;
    -(pv * q + fv) / ((q - 1) / rate * (1 + rate * type))

/-- The loop of `IPMT`; its two branches are the same. -/
def remaining (rate pmt pv : ℚ) : ℕ → ℚ
  | 0 => pv
  | i + 1 =>
    let interest := remaining rate pmt pv i * rate
    remaining rate pmt pv i + (pmt - interest)

def IPMT (rate : ℚ) (per nper : ℕ) (pv fv : ℚ) (type : ℤ) : ℚ :=
  if type = 1 ∧ per = 1 then 0
  else remaining rate (PMT rate nper pv fv type) pv (per - 1) * rate

def PPMT (rate : ℚ) (per nper : ℕ) (pv fv : ℚ) (type : ℤ) : ℚ :=
  PMT rate nper pv fv type - IPMT rate per nper pv fv type

def FV (rate : ℚ) (nper : ℕ) (pmt pv : ℚ) (type : ℤ) : ℚ :=
  if rate = 0 then -(pv + pmt * nper)
  else
    let q := (1 + rate) ^ nper;
    -(pv * q + pmt * (q - 1) / rate * (1 + rate * type))

def PV (rate : ℚ) (nper : ℕ) (pmt fv : ℚ) (type : ℤ) : ℚ :=
  if rate = 0 then -(fv + pmt * nper)
  else
    let q := (1 + rate) ^ nper;
    -(fv + pmt * (q - 1) / rate * (1 + rate * type)) / q

/-- `range(start, end + 1)`. -/
def periods (first last : ℕ) : List ℕ := List.range' first (last + 1 - first)

def CUMPRINC (rate : ℚ) (nper : ℕ) (pv : ℚ) (first last : ℕ) (type : ℤ) : ℚ :=
  ((periods first last).map fun p => PPMT rate p nper pv 0 type).sum

/-! ### A loan that closes -/

/-- What is outstanding after some payments. -/
def balance (rate pmt pv : ℚ) : ℕ → ℚ
  | 0 => pv
  | k + 1 => balance rate pmt pv k * (1 + rate) + pmt

structure Closes (rate : ℚ) (nper : ℕ) (pv fv : ℚ) : Prop where
  future : FV rate nper (PMT rate nper pv fv 0) pv 0 = fv
  present : PV rate nper (PMT rate nper pv fv 0) fv 0 = pv
  interest : ∀ k, 1 ≤ k → k ≤ nper →
    IPMT rate k nper pv fv 0 = -rate * balance rate (PMT rate nper pv fv 0) pv (k - 1)
  principal : ((periods 1 nper).map fun k => PPMT rate k nper pv fv 0).sum = -(pv + fv)
  cumulative : fv = 0 → CUMPRINC rate nper pv 1 nper 0 = -(pv + fv)

section
variable {rate : ℚ} {nper : ℕ} {pv fv : ℚ}

theorem PMT_eq (hrate : 0 < rate) :
    PMT rate nper pv fv 0 = -(pv * (1 + rate) ^ nper + fv) / (((1 + rate) ^ nper - 1) / rate) := by
  simp [PMT, hrate.ne']

theorem growth_pos (hrate : 0 < rate) (hnper : 1 ≤ nper) : 0 < (1 + rate) ^ nper - 1 :=
  sub_pos.2 (one_lt_pow₀ (by linarith) (by omega))

theorem FV_PMT (hrate : 0 < rate) (hnper : 1 ≤ nper) :
    FV rate nper (PMT rate nper pv fv 0) pv 0 = fv := by
  have := (growth_pos hrate hnper).ne'
  simp only [FV, PMT_eq hrate, if_neg hrate.ne', Int.cast_zero, mul_zero, add_zero, mul_one]
  field_simp
  ring

theorem PV_PMT (hrate : 0 < rate) (hnper : 1 ≤ nper) :
    PV rate nper (PMT rate nper pv fv 0) fv 0 = pv := by
  have := (growth_pos hrate hnper).ne'
  have : (1 + rate) ^ nper ≠ 0 := (pow_pos (by linarith) nper).ne'
  simp only [PV, PMT_eq hrate, if_neg hrate.ne', Int.cast_zero, mul_zero, add_zero, mul_one]
  field_simp
  ring

theorem remaining_zero (rate : ℚ) : ∀ k, remaining rate 0 0 k = 0
  | 0 => rfl
  | k + 1 => by simp [remaining, remaining_zero rate k]

theorem balance_zero (rate : ℚ) : ∀ k, balance rate 0 0 k = 0
  | 0 => rfl
  | k + 1 => by simp [balance, balance_zero rate k]

/-- **A loan closes** exactly if nothing is lent, and there is one period or nothing to come to:
    the interest has the wrong sign, and the balance moves by the payment less the interest. -/
theorem closes_iff (hrate : 0 < rate) (hnper : 1 ≤ nper) :
    Closes rate nper pv fv ↔ pv = 0 ∧ (nper = 1 ∨ fv = 0) := by
  have hgrowth := growth_pos hrate hnper
  constructor
  · intro h
    have hpv : pv = 0 := by
      have hfirst := h.interest 1 le_rfl hnper
      norm_num [IPMT, remaining, balance] at hfirst
      nlinarith
    subst hpv
    refine ⟨rfl, or_iff_not_imp_left.2 fun hone => ?_⟩
    have hsecond := h.interest 2 (by omega) (by omega)
    norm_num [IPMT, remaining, balance] at hsecond
    have hpmt : PMT rate nper 0 fv 0 = 0 := by nlinarith
    have hfuture := h.future
    rw [hpmt] at hfuture
    simpa [FV, hrate.ne'] using hfuture.symm
  · rintro ⟨rfl, hone | rfl⟩
    · subst hone
      have hpmt : PMT rate 1 0 fv 0 = -fv := by
        rw [PMT_eq hrate, show (1 + rate) ^ 1 - 1 = rate by ring, div_self hrate.ne']
        ring
      refine ⟨FV_PMT hrate hnper, PV_PMT hrate hnper, fun k hk hk' => ?_, ?_, ?_⟩
      · obtain rfl : k = 1 := le_antisymm hk' hk
        simp [IPMT, remaining, balance]
      · simp [periods, PPMT, IPMT, remaining, hpmt]
      · rintro rfl
        simp [CUMPRINC, periods, PPMT, IPMT, remaining, hpmt]
    · have hpmt : PMT rate nper 0 0 0 = 0 := by simp [PMT_eq hrate]
      refine ⟨FV_PMT hrate hnper, PV_PMT hrate hnper, fun k _ _ => ?_, ?_, fun _ => ?_⟩
      · simp [IPMT, hpmt, remaining_zero, balance_zero]
      · simp [PPMT, IPMT, hpmt, remaining_zero]
      · simp [CUMPRINC, PPMT, IPMT, hpmt, remaining_zero]

end

theorem closes_iff_mortgage :
    Closes (1 / 100) 12 1000 0 ↔ (1000 : ℚ) = 0 ∧ (12 = 1 ∨ (0 : ℚ) = 0) :=
  closes_iff (by norm_num) (by norm_num)

/-- Of a loan of 100 at ten percent, paid back after a period, the interest is counted as 10
    where -10 are due, and the principal part as 120. -/
theorem interest_has_wrong_sign : ¬Closes (1 / 10) 1 100 0 ∧
    IPMT (1 / 10) 1 1 100 0 0 = 10 ∧ PPMT (1 / 10) 1 1 100 0 0 = -120 := by
  have hinterest : IPMT (1 / 10) 1 1 100 0 0 = 10 := by norm_num [IPMT, remaining]
  refine ⟨fun h => ?_, hinterest, by norm_num [PPMT, hinterest, PMT]⟩
  have := h.interest 1 le_rfl le_rfl
  rw [hinterest] at this
  norm_num [balance] at this

end RuleMind.Loan
