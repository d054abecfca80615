/-
  `NETWORKDAYS` and `WORKDAY` of `app/excel_functions.py`.

  A date is its ordinal, and `weekday` is read off it; the two loops go from day to day, and
  raise where they leave the calendar.
-/
import Mathlib.Data.Int.Interval
import Mathlib.Tactic.Linarith
import Mathlib.Tactic.Ring

namespace RuleMind.WorkingDays

/-- `date.max.toordinal()`. -/
def MAXORDINAL : ℤ := 3652059

def OnCalendar (d : ℤ) : Prop := 1 ≤ d ∧ d ≤ MAXORDINAL

instance (d : ℤ) : Decidable (OnCalendar d) := inferInstanceAs (Decidable (_ ∧ _))

/-- `d + timedelta(days=k)`. -/
def addDays (d k : ℤ) : Option ℤ := if OnCalendar (d + k) then some (d + k) else none

/-- `weekday()`: Monday is 0. -/
def weekday (d : ℤ) : ℤ := (d + 6) % 7

def counts (hols : List ℤ) (d : ℤ) : Bool := weekday d < 5 && !hols.contains d

/-- The step of a loop, up or down. -/
def stepOf (up : Bool) : ℤ := if up then 1 else -1

/-- How many days are ahead of a loop. -/
def ahead (up : Bool) (d : ℤ) : ℕ := (if up then MAXORDINAL - d else d - 1).toNat

theorem ahead_lt {up : Bool} {d d' : ℤ} (h : addDays d (stepOf up) = some d') :
    ahead up d' < ahead up d := by
  unfold addDays at h
  split at h
  · cases h
    cases up <;> simp [ahead, stepOf, OnCalendar] at * <;> omega
  · cases h

/-- The loop of `NETWORKDAYS`. -/
def networkLoop (hols : List ℤ) (up : Bool) (ed d count : ℤ) : Option ℤ :=
  if stepOf up * d ≤ stepOf up * ed then
    match _h : addDays d (stepOf up) with
    | none => none
    | some d' => networkLoop hols up ed d' (if counts hols d then count + 1 else count)
  else some count
termination_by ahead up d
decreasing_by exact ahead_lt _h

def NETWORKDAYS (sd ed : ℤ) (hols : List ℤ) : Option ℤ :=
  let up := decide (sd ≤ ed)
  (networkLoop hols up ed sd 0).map (· * stepOf up)

/-- The loop of `WORKDAY`. -/
def workdayLoop (hols : List ℤ) (up : Bool) (remaining d : ℤ) : Option ℤ :=
  if remaining = 0 then some d
  else
    match _h : addDays d (stepOf up) with
    | none => none
    | some d' =>
      workdayLoop hols up (if counts hols d' then remaining - stepOf up else remaining) d'
termination_by ahead up d
decreasing_by exact ahead_lt _h

def WORKDAY (d days : ℤ) (hols : List ℤ) : Option ℤ := workdayLoop hols (decide (0 < days)) days d

/-! ### Counting -/

/-- The working days between two dates, counted in the direction of a loop. -/
def between (hols : List ℤ) (up : Bool) (u v : ℤ) : ℕ :=
  ((@Finset.Icc ℤ Int.instLinearOrder.toPartialOrder.toPreorder _ u v).filter fun x =>
    counts hols (stepOf up * x) = true).card

/-- The last date of the calendar, in the direction of a loop. -/
def edge (up : Bool) : ℤ := if up then MAXORDINAL else 1

section
variable {hols : List ℤ} {up : Bool} {d d' ed w : ℤ}

theorem stepOf_mul_self (up : Bool) (d : ℤ) : stepOf up * (stepOf up * d) = d := by
  cases up <;> simp [stepOf]

theorem addDays_none (hd : OnCalendar d) (h : addDays d (stepOf up) = none) : d = edge up := by
  cases up <;> simp [addDays, OnCalendar, edge, stepOf] at * <;> omega

theorem addDays_some (h : addDays d (stepOf up) = some d') :
    OnCalendar d' ∧ stepOf up * d' = stepOf up * d + 1 ∧ d ≠ edge up := by
  obtain ⟨hd, hsome⟩ := Option.ite_none_right_eq_some.1 h
  cases hsome
  refine ⟨hd, ?_⟩
  cases up <;> simp [OnCalendar, edge, stepOf] at * <;> omega

theorem pos_le_edge (up : Bool) (h : OnCalendar d) : stepOf up * d ≤ stepOf up * edge up := by
  cases up <;> simp [OnCalendar, edge, stepOf] at * <;> omega

variable {v u sd : ℤ}

theorem between_empty (h : v < u) : between hols up u v = 0 := by
  simp [between, Finset.Icc_eq_empty h.not_ge]

theorem between_split {x : ℤ} (huv : u ≤ v + 1) (hvx : v ≤ x) :
    between hols up u x = between hols up u v + between hols up (v + 1) x := by
  unfold between
  rw [← Finset.card_union_of_disjoint, ← Finset.filter_union]
  · congr 2
    ext x
    simp only [Finset.mem_Icc, Finset.mem_union]
    omega
  · refine Finset.disjoint_filter_filter (Finset.disjoint_left.2 fun x hx hx' => ?_)
    simp only [Finset.mem_Icc] at hx hx'
    omega

theorem between_cons (h : stepOf up * d ≤ v) : between hols up (stepOf up * d) v =
    (if counts hols d then 1 else 0) + between hols up (stepOf up * d + 1) v := by
  rw [between_split (by omega) h, between, Finset.Icc_self, Finset.filter_singleton,
    stepOf_mul_self]
  split_ifs <;> rfl

theorem between_down (u v : ℤ) : between hols false (-v) (-u) = between hols true u v := by
  unfold between
  refine Finset.card_bij (fun x _ => -x) ?_ (by simp) fun x hx => ⟨-x, ?_, by simp⟩
  · intro x hx
    simp [stepOf] at hx ⊢
    exact ⟨by omega, hx.2⟩
  · simp [stepOf] at hx ⊢
    exact ⟨by omega, hx.2⟩

/-! ### The loops -/

theorem networkLoop_eq (hed : OnCalendar ed) {count : ℤ} (hd : OnCalendar d) :
    networkLoop hols up ed d count = if stepOf up * d ≤ stepOf up * ed ∧ ed = edge up then none
      else some (count + between hols up (stepOf up * d) (stepOf up * ed)) := by
  fun_induction networkLoop hols up ed d count with
  | case1 d count hle hnone =>
    obtain rfl := addDays_none hd hnone
    have := pos_le_edge up hed
    rw [if_pos ⟨hle, by cases up <;> simp [stepOf] at * <;> omega⟩]
  | case2 d count hle d' h ih =>
    obtain ⟨hd', hpos, hedge⟩ := addDays_some h
    simp only [dite_eq_ite] at ih
    rw [ih hd', between_cons hle, hpos]
    by_cases hed : ed = edge up
    · have : stepOf up * d ≠ stepOf up * ed := fun he => hedge (by
        rw [← stepOf_mul_self up d, he, stepOf_mul_self, hed])
      rw [if_pos ⟨hpos ▸ by omega, hed⟩, if_pos ⟨hle, hed⟩]
    · simp only [hed, and_false, if_false]
      split_ifs <;> push_cast <;> congr 1 <;> omega
  | case3 d count hlt => simp [hlt, between_empty (not_le.1 hlt)]

theorem workdayLoop_zero : workdayLoop hols up ((0 : ℕ) * stepOf up) d = some d := by
  rw [workdayLoop, if_pos (by simp)]

theorem workdayLoop_succ (n : ℕ) : workdayLoop hols up ((n + 1 : ℕ) * stepOf up) d =
    (addDays d (stepOf up)).bind fun d' =>
      workdayLoop hols up ((if counts hols d' then n else n + 1 : ℕ) * stepOf up) d' := by
  have hne : ((n + 1 : ℕ) : ℤ) * stepOf up ≠ 0 := by cases up <;> simp [stepOf] <;> omega
  rw [workdayLoop, if_neg hne]
  cases addDays d (stepOf up) with
  | none => rfl
  | some d' =>
    refine congrArg (workdayLoop hols up · d') ?_
    split_ifs
    · push_cast
      ring
    · rfl

theorem workdayLoop_spec {n : ℕ} (hd : OnCalendar d)
    (h : workdayLoop hols up (n * stepOf up) d = some w) :
    OnCalendar w ∧ stepOf up * d ≤ stepOf up * w ∧
      between hols up (stepOf up * d + 1) (stepOf up * w) = n ∧ (n ≠ 0 → counts hols w = true) := by
  induction hk : ahead up d using Nat.strong_induction_on generalizing d n with
  | _ k ih =>
    cases n with
    | zero =>
      rw [workdayLoop_zero] at h
      cases h
      exact ⟨hd, le_rfl, between_empty (by omega), nofun⟩
    | succ n =>
      rw [workdayLoop_succ] at h
      obtain ⟨d', hstep, h⟩ := Option.bind_eq_some_iff.1 h
      obtain ⟨hd', hpos, -⟩ := addDays_some hstep
      obtain ⟨hw, hle, hcount, hlast⟩ := ih _ (hk ▸ ahead_lt hstep) hd' h rfl
      refine ⟨hw, by omega, ?_, fun _ => ?_⟩
      · rw [← hpos, between_cons hle, hcount]
        split_ifs <;> omega
      · by_cases hc : counts hols d' = true
        · rw [if_pos hc] at h hlast
          cases n with
          | zero =>
            rw [workdayLoop_zero] at h
            cases h
            exact hc
          | succ n => exact hlast (by omega)
        · exact hlast (by rw [if_neg hc]; omega)

theorem workdayLoop_returns {n : ℕ} (hd : OnCalendar d)
    (hn : n ≤ between hols up (stepOf up * d + 1) (stepOf up * edge up)) :
    ∃ w, workdayLoop hols up (n * stepOf up) d = some w := by
  induction hk : ahead up d using Nat.strong_induction_on generalizing d n with
  | _ k ih =>
    cases n with
    | zero => exact ⟨d, workdayLoop_zero⟩
    | succ n =>
      rw [workdayLoop_succ]
      cases hstep : addDays d (stepOf up) with
      | none =>
        obtain rfl := addDays_none hd hstep
        rw [between_empty (by omega)] at hn
        omega
      | some d' =>
        obtain ⟨hd', hpos, -⟩ := addDays_some hstep
        refine ih _ (hk ▸ ahead_lt hstep) hd' ?_ rfl
        rw [← hpos, between_cons (pos_le_edge up hd')] at hn
        split_ifs at hn ⊢ <;> omega

theorem workdayLoop_add (a b : ℕ) : workdayLoop hols up ((a + b : ℕ) * stepOf up) d =
    (workdayLoop hols up (a * stepOf up) d).bind (workdayLoop hols up (b * stepOf up)) := by
  induction hk : ahead up d using Nat.strong_induction_on generalizing d a with
  | _ k ih =>
    cases a with
    | zero => rw [workdayLoop_zero, Nat.zero_add, Option.bind_some]
    | succ a =>
      rw [workdayLoop_succ, Nat.add_right_comm, workdayLoop_succ, Option.bind_assoc]
      cases hstep : addDays d (stepOf up) with
      | none => rfl
      | some d' =>
        rw [Option.bind_some, Option.bind_some, ← ih _ (hk ▸ ahead_lt hstep) _ rfl]
        split_ifs
        · rfl
        · rw [Nat.add_right_comm]

theorem WORKDAY_eq (n : ℕ) : WORKDAY d (n * stepOf up) hols = workdayLoop hols up (n * stepOf up) d := by
  cases n with
  | zero => rw [WORKDAY, workdayLoop_zero, Nat.cast_zero, zero_mul, workdayLoop, if_pos rfl]
  | succ n =>
    have : decide (0 < ((n + 1 : ℕ) : ℤ) * stepOf up) = up := by cases up <;> simp [stepOf]
    rw [WORKDAY, this]

theorem NETWORKDAYS_up (hsd : OnCalendar sd) (hed : OnCalendar ed) (h : sd ≤ ed) :
    NETWORKDAYS sd ed hols = if ed = MAXORDINAL then none else some (between hols true sd ed : ℤ) := by
  rw [NETWORKDAYS, decide_eq_true h, networkLoop_eq hed hsd]
  simp only [stepOf, edge, if_true, one_mul, h, true_and]
  split_ifs <;> simp

theorem NETWORKDAYS_down (hsd : OnCalendar sd) (hed : OnCalendar ed) (h : ed < sd) :
    NETWORKDAYS sd ed hols = if ed = 1 then none else some (-(between hols true ed sd : ℤ)) := by
  rw [NETWORKDAYS, decide_eq_false h.not_ge, networkLoop_eq hed hsd, ← between_down]
  simp only [stepOf, edge, Bool.false_eq_true, if_false, neg_one_mul, neg_le_neg_iff, h.le, true_and]
  split_ifs <;> simp

end

/-- What the two functions have to do with each other. -/
structure Consistent (hols : List ℤ) : Prop where
  lands : ∀ d, OnCalendar d → ∀ n : ℕ, 1 ≤ n → n ≤ between hols true (d + 1) MAXORDINAL →
    ∃ w, WORKDAY d n hols = some w ∧ weekday w < 5 ∧ w ∉ hols ∧
      (w ≠ MAXORDINAL → NETWORKDAYS (d + 1) w hols = some (n : ℤ))
  goesOn : ∀ d a b, 0 ≤ a ∧ 0 ≤ b ∨ a ≤ 0 ∧ b ≤ 0 →
    (WORKDAY d a hols).bind (WORKDAY · b hols) = WORKDAY d (a + b) hols
  additive : ∀ a b c, OnCalendar a → OnCalendar c → a ≤ b → b < c →
    NETWORKDAYS a c hols =
      (NETWORKDAYS a b hols).bind fun m => (NETWORKDAYS (b + 1) c hols).map (m + ·)
  swaps : ∀ sd ed m n, OnCalendar sd → OnCalendar ed → sd ≠ ed →
    NETWORKDAYS sd ed hols = some m → NETWORKDAYS ed sd hols = some n → n = -m

/-- **Working days are counted alike**: a swap changes the sign of two distinct dates. -/
theorem working_days_consistent (hols : List ℤ) : Consistent hols := by
  constructor
  · intro d hd n hn hleft
    obtain ⟨w, hw⟩ := @workdayLoop_returns hols true d n hd (by simpa [stepOf, edge] using hleft)
    obtain ⟨hcal, hle, hcount, hlast⟩ := workdayLoop_spec hd hw
    have hwork := hlast (by omega)
    simp only [counts, Bool.and_eq_true, decide_eq_true_eq, Bool.not_eq_true',
      List.contains_eq_mem, decide_eq_false_iff_not] at hwork
    refine ⟨w, ?_, hwork.1, hwork.2, fun hmax => ?_⟩
    · have := @WORKDAY_eq hols true d n
      rw [hw] at this
      simpa [stepOf] using this
    · simp only [stepOf, if_true, one_mul] at hle hcount
      have hlt : d < w := by
        by_contra hge
        rw [between_empty (by omega)] at hcount
        omega
      rw [NETWORKDAYS_up ⟨by have := hd.1; omega, by have := hcal.2; omega⟩ hcal hlt, if_neg hmax,
        hcount]
  · intro d a b hsign
    have hsame : ∀ (up : Bool) (m n : ℕ), (WORKDAY d (m * stepOf up) hols).bind
        (WORKDAY · (n * stepOf up) hols) = WORKDAY d (m * stepOf up + n * stepOf up) hols := by
      intro up m n
      rw [← add_mul, ← Nat.cast_add, WORKDAY_eq, WORKDAY_eq, workdayLoop_add]
      simp only [WORKDAY_eq]
    obtain ⟨ha, hb⟩ | ⟨ha, hb⟩ := hsign
    · simpa [stepOf, ha, hb] using hsame true a.toNat b.toNat
    · simpa [stepOf, ha, hb] using hsame false (-a).toNat (-b).toNat
  · intro a b c ha hc hab hbc
    have hb : OnCalendar b := ⟨ha.1.trans hab, by have := hc.2; omega⟩
    have hb' : OnCalendar (b + 1) := ⟨by have := hb.1; omega, by have := hc.2; omega⟩
    have hbmax : b ≠ MAXORDINAL := by have := hc.2; omega
    rw [NETWORKDAYS_up ha hc (by omega), NETWORKDAYS_up ha hb hab, NETWORKDAYS_up hb' hc (by omega),
      if_neg hbmax, between_split (show a ≤ b + 1 by omega) hbc.le]
    split_ifs <;> simp
  · intro sd ed m n hsd hed hne hm hn
    obtain h | h := lt_or_gt_of_ne hne
    · rw [NETWORKDAYS_up hsd hed h.le] at hm
      rw [NETWORKDAYS_down hed hsd h] at hn
      split_ifs at hm hn
      cases hm
      cases hn
      rfl
    · rw [NETWORKDAYS_down hsd hed h] at hm
      rw [NETWORKDAYS_up hed hsd h.le] at hn
      split_ifs at hm hn
      cases hm
      cases hn
      exact (neg_neg _).symm

/-- A working day is counted once in either direction: no sign changes. -/
theorem same_day_keeps_sign : NETWORKDAYS 8 8 [] = some 1 ∧ ¬∀ hols sd ed m n,
    NETWORKDAYS sd ed hols = some m → NETWORKDAYS ed sd hols = some n → n = -m := by
  have h : NETWORKDAYS 8 8 [] = some 1 := by
    rw [NETWORKDAYS_up (by decide) (by decide) le_rfl, if_neg (by decide)]
    decide
  exact ⟨h, fun hall => absurd (hall [] 8 8 1 1 h h) (by decide)⟩

end RuleMind.WorkingDays
