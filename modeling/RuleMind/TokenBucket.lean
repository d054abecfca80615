/-
  The shared token bucket of `app/rate_limit.py`: `_LUA_TOKEN_BUCKET`, one hash in
  Redis that every replica spends from.

  An execution of the script is one atomic step.  It reads the caller's clock, which
  may stand behind the last caller's, and Redis drops the hash by a clock of its own
  (`EXPIRE`).  Numbers are exact.
-/
import RuleMind.Lib.Run
import Mathlib.Data.Rat.Floor

namespace RuleMind.TokenBucket

/-! ### The script -/

/-- `ARGV[1]` and `ARGV[2]`. -/
structure Limits where
  rate : ℚ
  burst : ℚ
  rate_pos : 0 < rate
  burst_pos : 0 < burst

def Limits.ttl (l : Limits) : ℚ := ⌈l.burst / l.rate⌉ + 60

structure Bucket where
  tokens : ℚ
  ts : ℚ
  deriving DecidableEq, Repr

/-- `ARGV[3]` and `ARGV[4]`, and the seconds since the last call, by the clock of Redis. -/
structure Call where
  idle : ℚ
  now : ℚ
  cost : ℚ
  deriving DecidableEq, Repr

structure Reply where
  allowed : Bool
  tokens : ℚ
  retry : ℚ
  deriving DecidableEq, Repr

/-- `HMGET`: a hash that has expired is not there. -/
def stored (l : Limits) (key : Option Bucket) (c : Call) : Option Bucket :=
  key.filter fun _ => c.idle < l.ttl

def refilled (l : Limits) (key : Option Bucket) (c : Call) : ℚ :=
  let b := (stored l key c).getD ⟨l.burst, c.now⟩
  let elapsed := if c.now - b.ts < 0 then 0 else c.now - b.ts
  min l.burst (b.tokens + elapsed * l.rate)

/-- `_LUA_TOKEN_BUCKET`: the reply, and the hash it leaves. -/
def execute (l : Limits) (key : Option Bucket) (c : Call) : Reply × Bucket :=
  let tokens := refilled l key c
  if tokens ≥ c.cost then (⟨true, tokens - c.cost, 0⟩, ⟨tokens - c.cost, c.now⟩)
  else (⟨false, tokens, (c.cost - tokens) / l.rate⟩, ⟨tokens, c.now⟩)

/-! ### Runs -/

/-- The key, and the calls so far with their replies, the last one first. -/
structure State where
  key : Option Bucket
  served : List (Call × Reply)
  deriving DecidableEq, Repr

namespace State

def init : State := ⟨none, []⟩

def admitted (s : State) : ℚ := (s.served.map fun x => if x.2.allowed then x.1.cost else 0).sum

def readings (s : State) : List ℚ := s.served.map fun x => x.1.now

end State

def largest : List ℚ → ℚ
  | [] => 0
  | [x] => x
  | x :: xs => max x (largest xs)

def smallest : List ℚ → ℚ
  | [] => 0
  | [x] => x
  | x :: xs => min x (smallest xs)

/-- The clock of Redis does not go back; the callers' may. -/
def step (l : Limits) (s : State) (c : Call) : Option State :=
  if 0 ≤ c.idle then
    let (reply, bucket) := execute l s.key c
    some ⟨some bucket, (c, reply) :: s.served⟩
  else none

/-- The reading is not behind the stored one, and a bucket that was dropped would be full. -/
def InOrder (l : Limits) (s : State) (c : Call) : Prop :=
  ∀ b ∈ s.key, b.ts ≤ c.now ∧
    (stored l s.key c = none → l.burst ≤ b.tokens + (c.now - b.ts) * l.rate)

instance (l : Limits) (s : State) (c : Call) : Decidable (InOrder l s c) :=
  inferInstanceAs (Decidable (∀ _ ∈ s.key, _ ∧ (_ → _)))

def Bounded (l : Limits) (s : State) : Prop :=
  s.admitted ≤ l.burst + l.rate * (largest s.readings - smallest s.readings)

instance (l : Limits) (s : State) : Decidable (Bounded l s) := inferInstanceAs (Decidable (_ ≤ _))

variable {l : Limits}

theorem refilled_le_burst (key : Option Bucket) (c : Call) : refilled l key c ≤ l.burst :=
  min_le_left _ _

theorem refilled_fresh (c : Call) : refilled l none c = l.burst := by
  simp [refilled, stored]

theorem refilled_le {s : State} {b : Bucket} {c : Call} (hb : s.key = some b)
    (h : InOrder l s c) : refilled l s.key c ≤ b.tokens + (c.now - b.ts) * l.rate := by
  obtain ⟨hts, hdropped⟩ := h b hb
  cases hs : stored l s.key c with
  | none => exact (refilled_le_burst _ c).trans (hdropped hs)
  | some b' =>
    have hsame : b' = b := by
      rw [stored, hb] at hs
      exact (Option.some.inj (Option.filter_eq_some_iff.1 hs).1).symm
    simp_all [refilled, if_neg]

theorem refilled_nonneg {key : Option Bucket} (h : ∀ b ∈ key, 0 ≤ b.tokens) (c : Call) :
    0 ≤ refilled l key c := by
  have htokens : 0 ≤ ((stored l key c).getD ⟨l.burst, c.now⟩).tokens := by
    cases hs : stored l key c with
    | none => exact l.burst_pos.le
    | some b => exact h b (Option.filter_eq_some_iff.1 hs).1
  refine le_min l.burst_pos.le (add_nonneg htokens (mul_nonneg ?_ l.rate_pos.le))
  grind

theorem execute_spec (key : Option Bucket) (c : Call) :
    (execute l key c).2.ts = c.now ∧
      (if (execute l key c).1.allowed then c.cost else 0) + (execute l key c).2.tokens =
        refilled l key c ∧
      (0 ≤ refilled l key c → 0 ≤ (execute l key c).2.tokens) := by
  unfold execute
  grind

/-! ### Whole runs -/

theorem largest_cons (x : ℚ) {xs : List ℚ} (h : xs ≠ []) :
    largest (x :: xs) = max x (largest xs) := by
  cases xs with
  | nil => exact absurd rfl h
  | cons y ys => rfl

theorem smallest_cons (x : ℚ) {xs : List ℚ} (h : xs ≠ []) :
    smallest (x :: xs) = min x (smallest xs) := by
  cases xs with
  | nil => exact absurd rfl h
  | cons y ys => rfl

theorem smallest_le_largest (xs : List ℚ) : smallest xs ≤ largest xs := by
  induction xs with
  | nil => exact le_rfl
  | cons x xs ih =>
    by_cases h : xs = []
    · subst h
      exact le_rfl
    grind [largest_cons, smallest_cons]

/-- The stored reading is the largest so far, and what was admitted and what is left are
    together no more than what the readings account for. -/
structure Inv (l : Limits) (s : State) : Prop where
  fresh : s.key = none → s.served = []
  nonneg : ∀ b ∈ s.key, 0 ≤ b.tokens
  latest : ∀ b ∈ s.key, s.readings ≠ [] ∧ b.ts = largest s.readings
  spent : ∀ b ∈ s.key, s.admitted + b.tokens ≤ l.burst + l.rate * (b.ts - smallest s.readings)

theorem inv_init : Inv l State.init where
  fresh _ := rfl
  nonneg _ h := nomatch h
  latest _ h := nomatch h
  spent _ h := nomatch h

theorem step_inv {s s' : State} {c : Call} (hi : Inv l s) (hok : InOrder l s c)
    (h : step l s c = some s') : Inv l s' := by
  unfold step at h
  split at h
  · obtain ⟨hts, hsum, hpos⟩ := execute_spec (l := l) s.key c
    have hnonneg := hpos (refilled_nonneg hi.nonneg c)
    generalize hx : execute l s.key c = x at h hts hsum hnonneg
    obtain ⟨reply, bucket⟩ := x
    cases h
    simp only at hts hsum hnonneg
    cases hk : s.key with
    | none =>
      have hs : s.served = [] := hi.fresh hk
      rw [hk, refilled_fresh] at hsum
      refine ⟨(fun h => nomatch h), ?_, ?_, ?_⟩
      · rintro b ⟨⟩
        exact hnonneg
      · rintro b ⟨⟩
        simp [State.readings, hs, largest, hts]
      · rintro b ⟨⟩
        simp only [State.admitted, State.readings, hs, List.map_cons, List.map_nil, List.sum_cons,
          List.sum_nil, smallest, hts]
        linarith
    | some b =>
      obtain ⟨hne, hlatest⟩ := hi.latest b hk
      have hspent := hi.spent b hk
      have hflow := refilled_le hk hok
      have hbehind : b.ts ≤ c.now := (hok b hk).1
      have hlow : smallest s.readings ≤ c.now := (smallest_le_largest _).trans (hlatest ▸ hbehind)
      refine ⟨(fun h => nomatch h), ?_, ?_, ?_⟩
      · rintro b' ⟨⟩
        exact hnonneg
      · simp_all [State.readings, largest_cons]
      · rintro b' ⟨⟩
        show (if reply.allowed then c.cost else 0) + s.admitted + bucket.tokens ≤
          l.burst + l.rate * (bucket.ts - smallest (c.now :: s.readings))
        rw [smallest_cons _ hne, min_eq_right hlow, hts]
        grind
  · cases h

/-- The admitted cost stays within the burst and what the clocks account for. -/
theorem admitted_le_spread {s : State} (h : Lib.Reach (step l) (InOrder l) State.init s) :
    Bounded l s := by
  have hi : Inv l s := Lib.Reach.invariant inv_init (fun _ _ _ hi hok hs => step_inv hi hok hs) h
  unfold Bounded
  cases hk : s.key with
  | none =>
    have hs : s.served = [] := hi.fresh hk
    simp [State.admitted, State.readings, hs, largest, smallest, l.burst_pos.le]
  | some b =>
    have hspent := hi.spent b hk
    have hnonneg := hi.nonneg b hk
    rw [← (hi.latest b hk).2]
    linarith

def oneToken : Limits := ⟨1, 1, by decide, by decide⟩

/-- Three calls, the last one a second after the first. -/
def steadyCalls : List Call := [⟨0, 0, 1⟩, ⟨0, 0, 1⟩, ⟨1, 1, 1⟩]

theorem steadyCalls_bounded : ∃ s, Lib.Reach (step oneToken) (InOrder oneToken) State.init s ∧
    s.admitted = 2 ∧ Bounded oneToken s := by
  have hspent : (Lib.exec (step oneToken) State.init steadyCalls).any (·.admitted = 2) = true := by
    decide +kernel
  obtain ⟨s, hs, hadmitted⟩ := Option.any_eq_true .. |>.1 hspent
  have hreach := Lib.reach_exec hs (show Lib.Along _ (InOrder oneToken) _ _ by decide +kernel)
  exact ⟨s, hreach, of_decide_eq_true hadmitted, admitted_le_spread hreach⟩

/-- A replica whose clock is a second ahead, and one between its calls. -/
def crossedCalls : List Call := [⟨0, 1, 1⟩, ⟨0, 0, 1⟩, ⟨0, 1, 1⟩, ⟨0, 0, 1⟩, ⟨0, 1, 1⟩]

/-- Each reading behind sets the stored one back, and the second between them is paid again. -/
theorem clock_behind_overspends : ∃ s, Lib.Reachable (step oneToken) State.init s ∧
    s.readings = [1, 0, 1, 0, 1] ∧ s.admitted = 3 ∧ ¬ Bounded oneToken s := by
  have hspent : (Lib.exec (step oneToken) State.init crossedCalls).any (fun s =>
      s.readings = [1, 0, 1, 0, 1] ∧ s.admitted = 3 ∧ ¬ Bounded oneToken s) = true := by
    decide +kernel
  obtain ⟨s, hs, h⟩ := Option.any_eq_true .. |>.1 hspent
  exact ⟨s, Lib.reachable_exec hs, of_decide_eq_true h⟩

end RuleMind.TokenBucket
