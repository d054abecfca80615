/-
  The ramp of a canary on the server: which of the hundred buckets `assign_variant` of
  `app/experiments.py` sends to the challenger as time goes on.
-/
import Mathlib.Order.Interval.Finset.Nat
import RuleMind.Experiments
import RuleMind.Lib.Raises

namespace RuleMind.Canary

open Text (F64)

/-! ### Schedules -/

structure Step where
  day : ℚ
  weight : ℕ

section Schedule

def latest : Step → List Step → Step
  | best, [] => best
  | best, s :: steps => latest (if best.day < s.day then s else best) steps

def inForce (steps : List Step) (t : ℚ) : List Step := steps.filter fun s => s.day ≤ t

/-- The weight in force: before every day, the one listed first. -/
def weightAt (first : Step) (steps : List Step) (t : ℚ) : ℕ :=
  match inForce (first :: steps) t with
  | [] => first.weight
  | s :: ss => (latest s ss).weight

def NonDecreasing (steps : List Step) : Prop :=
  ∀ s ∈ steps, ∀ s' ∈ steps, s.day ≤ s'.day → s.weight ≤ s'.weight

/-- A step is in force from the start, or the step listed first has the least weight. -/
def Settled (first : Step) (steps : List Step) : Prop :=
  (∃ s ∈ first :: steps, s.day ≤ 0) ∨ ∀ s ∈ first :: steps, first.weight ≤ s.weight

theorem latest_spec (best : Step) (steps : List Step) :
    latest best steps ∈ best :: steps ∧ ∀ s ∈ best :: steps, s.day ≤ (latest best steps).day := by
  induction steps generalizing best with
  | nil => simp [latest]
  | cons s steps ih =>
    obtain ⟨hmem, hle⟩ := ih (if best.day < s.day then s else best)
    grind [latest]

variable {first : Step} {steps : List Step} {t t' : ℚ}

theorem weightAt_spec {s : Step} (hs : s ∈ first :: steps) (hday : s.day ≤ t) :
    ∃ s' ∈ first :: steps, s'.day ≤ t ∧ s.day ≤ s'.day ∧ weightAt first steps t = s'.weight := by
  have hmem : s ∈ inForce (first :: steps) t := List.mem_filter.2 ⟨hs, by simpa using hday⟩
  rw [weightAt]
  cases hforce : inForce (first :: steps) t with
  | nil =>
    rw [hforce] at hmem
    cases hmem
  | cons s₀ ss =>
    rw [hforce] at hmem
    obtain ⟨hlatest, hle⟩ := latest_spec s₀ ss
    have hfrom : latest s₀ ss ∈ inForce (first :: steps) t := by
      rw [hforce]
      exact hlatest
    obtain ⟨hlisted, hbefore⟩ := List.mem_filter.1 hfrom
    grind

theorem weightAt_before (h : ∀ s ∈ first :: steps, t < s.day) :
    weightAt first steps t = first.weight := by grind [inForce, List.filter_eq_nil_iff, weightAt]

theorem exists_weightAt (first : Step) (steps : List Step) (t : ℚ) :
    ∃ s ∈ first :: steps, weightAt first steps t = s.weight := by
  by_cases h : ∃ s ∈ first :: steps, s.day ≤ t
  · grind [weightAt_spec]
  · push Not at h
    exact ⟨first, List.mem_cons_self, weightAt_before h⟩

theorem weightAt_mono (h : NonDecreasing (first :: steps)) {s : Step} (hs : s ∈ first :: steps)
    (hday : s.day ≤ t) (htime : t ≤ t') : weightAt first steps t ≤ weightAt first steps t' := by
  obtain ⟨s₁, hs₁, hbefore, -, hweight⟩ := weightAt_spec hs hday
  obtain ⟨s₂, hs₂, -, hlater, hweight'⟩ := weightAt_spec hs₁ (hbefore.trans htime)
  rw [hweight, hweight']
  exact h s₁ hs₁ s₂ hs₂ hlater

/-- **When a ramp does not fall.** -/
theorem weightAt_grows_iff (h : NonDecreasing (first :: steps)) :
    (∀ t t', 0 ≤ t → t ≤ t' → weightAt first steps t ≤ weightAt first steps t') ↔
      Settled first steps := by
  constructor
  · intro hgrows
    by_cases hstart : ∃ s ∈ first :: steps, s.day ≤ 0
    · exact .inl hstart
    · push Not at hstart
      refine .inr fun s hs => ?_
      have hle := hgrows 0 s.day le_rfl (hstart s hs).le
      obtain ⟨s', hs', hbefore, -, hweight⟩ := weightAt_spec hs le_rfl
      rw [weightAt_before hstart, hweight] at hle
      exact hle.trans (h s' hs' s hs hbefore)
  · rintro hsettled t t' hpos htime
    by_cases hforce : ∃ s ∈ first :: steps, s.day ≤ t
    · obtain ⟨s, hs, hday⟩ := hforce
      exact weightAt_mono h hs hday htime
    · rcases hsettled with ⟨s, hs, hday⟩ | hleast
      · exact absurd ⟨s, hs, hday.trans hpos⟩ hforce
      · push Not at hforce
        obtain ⟨s, hs, hweight⟩ := exists_weightAt first steps t'
        grind [weightAt_before]

end Schedule

/-! ### What the engine reads -/

section Reading
variable (py : PyText)

/-- A step of a ramp reads as a day and a whole weight of at most 100; `weight` stands for one
    that is missing. -/
def ReadsAs (weight step : Value) (s : Step) : Prop :=
  stepDay py step = .ok (step, .finite s.day) ∧
    (stepGet step "weight" weight >>= pyFloatOf py) = .ok (.finite s.weight) ∧ s.weight ≤ 100

/-- The steps of a variant's ramp read as a schedule. -/
def Schedule (variant : Dict) (first : Step) (steps : List Step) : Prop :=
  ∃ read : List (Value × Step), rampSteps variant = some (read.map Prod.fst) ∧
    read.map Prod.snd = first :: steps ∧
    ∀ r ∈ read, ReadsAs py ((variant.lookup "weight").getD (.int 0)) r.1 r.2

variable {py}

theorem le_finite (a b : ℚ) : F64.le (.finite a) (.finite b) = decide (a ≤ b) := by
  show (!decide (F64.finite a ≠ F64.finite b) || decide (a < b)) = decide (a ≤ b)
  rw [Bool.eq_iff_iff]
  simp [le_iff_eq_or_lt]

def dayed (r : Value × Step) : Value × F64 := (r.1, .finite r.2.day)

variable {weight : Value} {read : List (Value × Step)}

theorem latestStep_reads {best : Value × Step}
    (hbest : ReadsAs py weight best.1 best.2) (h : ∀ r ∈ read, ReadsAs py weight r.1 r.2) :
    ReadsAs py weight (latestStep (dayed best) (read.map dayed))
      (latest best.2 (read.map Prod.snd)) := by
  induction read generalizing best with
  | nil => exact hbest
  | cons r read ih =>
    have hread := fun x hx => h x (List.mem_cons_of_mem r hx)
    have hgt : F64.gt (dayed r).2 (dayed best).2 = decide (best.2.day < r.2.day) := rfl
    rw [List.map_cons, List.map_cons, latestStep, latest, hgt]
    grind

/-- `latest or ramp[0]`. -/
def chosenStep (ramp₀ : Value) : List (Value × F64) → Value
  | [] => ramp₀
  | s :: steps => latestStep s steps

theorem chosenStep_reads {r : Value × Step}
    (hread : ∀ x ∈ r :: read, ReadsAs py weight x.1 x.2) (t : ℚ) :
    ∃ s, ReadsAs py weight
        (chosenStep r.1 (((r :: read).map dayed).filter fun s => F64.le s.2 (.finite t))) s ∧
      s.weight = weightAt r.2 (read.map Prod.snd) t := by
  have hforce : ((r :: read).map dayed).filter (fun s => F64.le s.2 (.finite t)) =
      ((r :: read).filter fun r => r.2.day ≤ t).map dayed := by
    rw [List.filter_map]
    congr 1
    refine List.filter_congr fun r _ => ?_
    exact le_finite _ _
  have hinForce : inForce (r.2 :: read.map Prod.snd) t =
      ((r :: read).filter fun r => r.2.day ≤ t).map Prod.snd := by
    rw [inForce, ← List.map_cons, List.filter_map]
    rfl
  rw [hforce, weightAt, hinForce]
  cases hchosen : (r :: read).filter fun r => r.2.day ≤ t with
  | nil => exact ⟨r.2, hread r List.mem_cons_self, rfl⟩
  | cons x xs =>
    have hsub : ∀ y ∈ x :: xs, ReadsAs py weight y.1 y.2 := by
      intro y hy
      rw [← hchosen] at hy
      exact hread y (List.mem_of_mem_filter hy)
    exact ⟨_, latestStep_reads (hsub x List.mem_cons_self)
      fun y hy => hsub y (List.mem_cons_of_mem _ hy), rfl⟩

theorem currentRampWeight_eq {variant : Dict} {first : Step} {steps : List Step}
    (h : Schedule py variant first steps) (t : ℚ) :
    currentRampWeight py variant t = .ok (some (.finite (weightAt first steps t))) ∧
      weightAt first steps t ≤ 100 := by
  obtain ⟨read, hramp, hsteps, hread⟩ := h
  cases read with
  | nil => cases hsteps
  | cons r read =>
    rw [List.map_cons, List.cons.injEq] at hsteps
    obtain ⟨rfl, rfl⟩ := hsteps
    have hdays : ((r :: read).map Prod.fst).mapM (stepDay py) = .ok ((r :: read).map dayed) := by
      rw [mapM_eq_ok, List.forall₂_map_left_iff, List.forall₂_map_right_iff, List.forall₂_same]
      exact fun x hx => (hread x hx).1
    obtain ⟨s, ⟨-, hread, hle⟩, hweight⟩ := chosenStep_reads hread t
    obtain ⟨w, hw, hfloat⟩ := bind_eq_ok.1 hread
    rw [← hweight]
    refine ⟨?_, hle⟩
    rw [currentRampWeight, hramp]
    show ((r :: read).map Prod.fst).mapM (stepDay py) >>= _ = _
    rw [hdays]
    show (stepGet (chosenStep r.1 (((r :: read).map dayed).filter fun s =>
      F64.le s.2 (.finite t))) "weight" _ >>= _) = _
    rw [hw]
    show (pyFloatOf py w >>= _) = _
    rw [hfloat]
    rfl

end Reading

/-! ### Two variants -/

section Assign
variable (py : PyText)

structure Pair (variants : List Dict) (champion challenger : Dict) : Prop where
  listed : variants = [champion, challenger] ∨ variants = [challenger, champion]
  role : variants[championIndex py variants]? = some champion
  distinct : champion ≠ challenger

/-- `assign_variant` for the subjects of a bucket. -/
def assignBucket (variants : List Dict) (t : ℚ) (bucket : ℤ) : Except PyError (Option Dict) := do
  let weights ← weightsFor py variants (some t)
  .ok (pickVariant bucket 0 (variants.zip weights))

def bucketsOf (variants : List Dict) (variant : Dict) (t : ℚ) : Finset ℕ :=
  (Finset.range 100).filter fun bucket =>
    (assignBucket py variants t bucket).toOption = some (some variant)

variable {py} {variants : List Dict} {champion challenger : Dict} {first : Step}
  {steps : List Step}

theorem effectiveWeight_ramp (hschedule : Schedule py challenger first steps) (t : ℚ) :
    effectiveWeight py (some t) challenger = .ok (weightAt first steps t : ℤ) := by
  have htrunc : truncF64 (.finite (weightAt first steps t)) = .ok (weightAt first steps t : ℤ) := by
    rw [truncF64, Rat.num_natCast, Rat.den_natCast, Nat.cast_one, Int.tdiv_one]
  rw [effectiveWeight]
  show (currentRampWeight py challenger t >>= _) = _
  rw [(currentRampWeight_eq hschedule t).1]
  exact htrunc

variable {t : ℚ} {w : ℤ}

theorem weightsFor_ramp {weights : List ℤ}
    (hweights : variants.mapM (effectiveWeight py (some t)) = .ok weights)
    (hramp : variants.all (fun v => (rampSteps v).isNone) = false) :
    weightsFor py variants (some t) = .ok (weights.set (championIndex py variants)
      (max 0 (100 - (weights.eraseIdx (championIndex py variants)).sum))) := by
  rw [weightsFor, hweights]
  show (if _ then _ else _) = _
  rw [if_neg]
  simp [hramp]

theorem weightsFor_pair (hpair : Pair py variants champion challenger)
    (hschedule : Schedule py challenger first steps)
    (hchampion : effectiveWeight py (some t) champion = .ok w) :
    ∃ weights, weightsFor py variants (some t) = .ok weights ∧ variants.zip weights =
      if variants = [champion, challenger] then
        [(champion, 100 - (weightAt first steps t : ℤ)), (challenger, (weightAt first steps t : ℤ))]
      else
        [(challenger, (weightAt first steps t : ℤ)),
          (champion, 100 - (weightAt first steps t : ℤ))] := by
  have hle := (currentRampWeight_eq hschedule t).2
  have hchallenger := effectiveWeight_ramp hschedule t
  obtain ⟨read, hramp, -, -⟩ := hschedule
  have hrest : max 0 (100 - (weightAt first steps t : ℤ)) = 100 - (weightAt first steps t : ℤ) :=
    max_eq_right (by omega)
  have hrole := hpair.role
  rcases hpair.listed with rfl | rfl
  · have hweights : [champion, challenger].mapM (effectiveWeight py (some t)) =
        .ok [w, (weightAt first steps t : ℤ)] :=
      mapM_eq_ok.2 (.cons hchampion (.cons hchallenger .nil))
    refine ⟨_, weightsFor_ramp hweights (by simp [hramp]), ?_⟩
    rw [if_pos rfl]
    generalize championIndex py [champion, challenger] = index at hrole ⊢
    rcases index with _ | _ | index
    · simp [hrest]
    · exact absurd (Option.some.inj hrole).symm hpair.distinct
    · cases hrole
  · have hweights : [challenger, champion].mapM (effectiveWeight py (some t)) =
        .ok [(weightAt first steps t : ℤ), w] :=
      mapM_eq_ok.2 (.cons hchallenger (.cons hchampion .nil))
    refine ⟨_, weightsFor_ramp hweights (by simp [hramp]), ?_⟩
    rw [if_neg (by simp [hpair.distinct.symm])]
    generalize championIndex py [challenger, champion] = index at hrole ⊢
    rcases index with _ | _ | index
    · exact absurd (Option.some.inj hrole).symm hpair.distinct
    · simp [hrest]
    · cases hrole

theorem bucketsOf_challenger (hpair : Pair py variants champion challenger)
    (hschedule : Schedule py challenger first steps)
    (hchampion : effectiveWeight py (some t) champion = .ok w) :
    bucketsOf py variants challenger t =
      if variants = [champion, challenger] then Finset.Ico (100 - weightAt first steps t) 100
      else Finset.range (weightAt first steps t) := by
  have hle := (currentRampWeight_eq hschedule t).2
  obtain ⟨weights, hweights, hzip⟩ := weightsFor_pair hpair hschedule hchampion
  have hassign : ∀ bucket : ℕ, (assignBucket py variants t bucket).toOption =
      some (pickVariant bucket 0 (variants.zip weights)) := by
    intro bucket
    rw [assignBucket, hweights]
    rfl
  have hdistinct := hpair.distinct
  ext bucket
  rw [bucketsOf, Finset.mem_filter, Finset.mem_range, hassign, hzip]
  split
  · have hpick : pickVariant (bucket : ℤ) 0 [(champion, 100 - (weightAt first steps t : ℤ)),
        (challenger, (weightAt first steps t : ℤ))] =
          if bucket < 100 - weightAt first steps t then some champion else some challenger := by
      rw [pickVariant, pickVariant]
      · congr 1
        rw [eq_iff_iff]
        omega
      · simp
    grind
  · have hpick : pickVariant (bucket : ℤ) 0 [(challenger, (weightAt first steps t : ℤ)),
        (champion, 100 - (weightAt first steps t : ℤ))] =
          if bucket < weightAt first steps t then some challenger else some champion := by
      rw [pickVariant, pickVariant]
      · congr 1
        rw [eq_iff_iff]
        omega
      · simp
    grind

theorem card_challengerBuckets (hpair : Pair py variants champion challenger)
    (hschedule : Schedule py challenger first steps)
    (hchampion : effectiveWeight py (some t) champion = .ok w) :
    (bucketsOf py variants challenger t).card = weightAt first steps t := by
  have hle := (currentRampWeight_eq hschedule t).2
  rw [bucketsOf_challenger hpair hschedule hchampion]
  split
  · rw [Nat.card_Ico]
    omega
  · exact Finset.card_range _

theorem challengerBuckets_subset_iff (hpair : Pair py variants champion challenger)
    (hschedule : Schedule py challenger first steps) {t' : ℚ} {w' : ℤ}
    (hchampion : effectiveWeight py (some t) champion = .ok w)
    (hchampion' : effectiveWeight py (some t') champion = .ok w') :
    bucketsOf py variants challenger t ⊆ bucketsOf py variants challenger t' ↔
      weightAt first steps t ≤ weightAt first steps t' := by
  constructor
  · intro hsub
    rw [← card_challengerBuckets hpair hschedule hchampion,
      ← card_challengerBuckets hpair hschedule hchampion']
    exact Finset.card_le_card hsub
  · intro hle
    rw [bucketsOf_challenger hpair hschedule hchampion,
      bucketsOf_challenger hpair hschedule hchampion']
    grind

/-- At every time the challenger has as many buckets as the ramp's weight says, and no bucket is
    taken from it as time goes on. -/
def ExactAndSticky (py : PyText) (variants : List Dict) (challenger : Dict) : Prop :=
  (∀ t, 0 ≤ t → ∃ w : ℕ, currentRampWeight py challenger t = .ok (some (.finite w)) ∧
    (bucketsOf py variants challenger t).card = w) ∧
  ∀ t t', 0 ≤ t → t ≤ t' → bucketsOf py variants challenger t ⊆ bucketsOf py variants challenger t'

/-- **Ramping a canary.**  The challenger's share is exact, and it only grows exactly if a step is
    in force from the start or the step listed first has the least weight. -/
theorem ramp_exact_and_sticky_iff (hpair : Pair py variants champion challenger)
    (hschedule : Schedule py challenger first steps) (hmono : NonDecreasing (first :: steps))
    (hchampion : ∀ t, ∃ w, effectiveWeight py (some t) champion = .ok w) :
    ExactAndSticky py variants challenger ↔ Settled first steps := by
  rw [← weightAt_grows_iff hmono]
  constructor
  · rintro ⟨-, hgrows⟩ t t' hpos htime
    obtain ⟨w, hw⟩ := hchampion t
    obtain ⟨w', hw'⟩ := hchampion t'
    grind [challengerBuckets_subset_iff]
  · intro hgrows
    refine ⟨fun t _ => ?_, fun t t' hpos htime => ?_⟩
    · obtain ⟨w, hw⟩ := hchampion t
      grind [currentRampWeight_eq, card_challengerBuckets]
    · obtain ⟨w, hw⟩ := hchampion t
      obtain ⟨w', hw'⟩ := hchampion t'
      grind [challengerBuckets_subset_iff]

end Assign

/-! ### Two listings of one ramp -/

section Crm

def rampStep (day weight : ℤ) : Value := .dict [("day", .int day), ("weight", .int weight)]

def champion : Dict := [("id", .str "a"), ("role", .str "champion"), ("weight", .int 90)]

def challenger (ramp : List Value) : Dict :=
  [("id", .str "b"), ("role", .str "challenger"), ("weight", .int 10), ("ramp", .list ramp)]

/-- Ten percent from the second day on, and fifty from the seventh. -/
def listed : Dict := challenger [rampStep 2 10, rampStep 7 50]

def listedBack : Dict := challenger [rampStep 7 50, rampStep 2 10]

theorem champion_readable (t : ℚ) : ∃ w, effectiveWeight asciiText (some t) champion = .ok w :=
  ⟨90, rfl⟩

variable {weight : Value}

theorem rampStep_reads {day percent : ℕ} (hle : percent ≤ 100)
    (hday : Text.roundF64 (day : ℤ) = some (day : ℚ))
    (hpercent : Text.roundF64 (percent : ℤ) = some (percent : ℚ)) :
    ReadsAs asciiText weight (rampStep day percent) ⟨day, percent⟩ := by
  refine ⟨?_, ?_, hle⟩
  · show (pyFloatOf asciiText (.int day) >>= _) = _
    rw [pyFloatOf, hday]
    rfl
  · show pyFloatOf asciiText (.int percent) = _
    rw [pyFloatOf, hpercent]

theorem rampStep_two : ReadsAs asciiText weight (rampStep 2 10) ⟨2, 10⟩ :=
  rampStep_reads (by decide) (by decide +kernel) (by decide +kernel)

theorem rampStep_seven : ReadsAs asciiText weight (rampStep 7 50) ⟨7, 50⟩ :=
  rampStep_reads (by decide) (by decide +kernel) (by decide +kernel)

theorem listed_schedule : Schedule asciiText listed ⟨2, 10⟩ [⟨7, 50⟩] := by
  refine ⟨[(rampStep 2 10, ⟨2, 10⟩), (rampStep 7 50, ⟨7, 50⟩)], rfl, rfl, ?_⟩
  simp [rampStep_two, rampStep_seven]

theorem listedBack_schedule : Schedule asciiText listedBack ⟨7, 50⟩ [⟨2, 10⟩] := by
  refine ⟨[(rampStep 7 50, ⟨7, 50⟩), (rampStep 2 10, ⟨2, 10⟩)], rfl, rfl, ?_⟩
  simp [rampStep_seven, rampStep_two]

theorem listed_nonDecreasing : NonDecreasing [⟨2, 10⟩, ⟨7, 50⟩] := by
  intro s hs s' hs' hday
  grind

theorem listed_pair : Pair asciiText [champion, listed] champion listed where
  listed := .inl rfl
  role := rfl
  distinct := by decide

theorem listedBack_pair : Pair asciiText [champion, listedBack] champion listedBack where
  listed := .inl rfl
  role := rfl
  distinct := by decide

/-- Listed by day, the ramp is exact and sticky. -/
theorem listed_sticky : ExactAndSticky asciiText [champion, listed] listed :=
  (ramp_exact_and_sticky_iff listed_pair listed_schedule listed_nonDecreasing
    champion_readable).2 (.inr fun s hs => by rcases List.mem_pair.1 hs with rfl | rfl <;> decide)

/-- Listed with its last step first, the same ramp begins with fifty percent, and has ten from the
    second day on. -/
theorem unsorted_ramp_moves_back :
    ¬ ExactAndSticky asciiText [champion, listedBack] listedBack := by
  rintro ⟨-, hgrows⟩
  have hle := (challengerBuckets_subset_iff listedBack_pair listedBack_schedule
    (champion_readable 0).choose_spec (champion_readable 3).choose_spec).1
      (hgrows 0 3 le_rfl (by norm_num))
  have hfirst : weightAt ⟨7, 50⟩ [⟨2, 10⟩] 0 = 50 := weightAt_before (by simp)
  have hthen : weightAt ⟨7, 50⟩ [⟨2, 10⟩] 3 = 10 := by decide +kernel
  omega

end Crm

end RuleMind.Canary
