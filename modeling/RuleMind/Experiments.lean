/-
  Experiments: which variant a subject gets, on the server (`app/experiments.py`), in
  the pure core (`_resolve_experiment` of `app/core/engine.py`) and on the device
  (`experiment_manager.dart` and the selection in `rulemind_engine.dart`).

  The hash of a subject is a function of the text hashed (`md5`).
-/
import RuleMind.Executor

namespace RuleMind

open Text (F64)

structure Experiment where
  id : String
  name : String
  status : String
  targetPolicyId : Option String
  /-- The instant `start_date` names, in seconds; none if there is no usable one. -/
  startDate : Option ℚ
  /-- `created_at` as the storage writes it. -/
  createdAt : Option String
  variants : List Dict

def Experiment.running (e : Experiment) : Bool := e.status == "running"

/-! ### Weights -/

def elapsedDays (now : ℚ) (startDate : Option ℚ) : Option ℚ :=
  startDate.map fun started => max 0 ((now - started) / 86400)

def rampSteps (variant : Dict) : Option (List Value) :=
  match variant.lookup "ramp" with
  | some (.list (step :: steps)) => some (step :: steps)
  | _ => none

/-- `step.get(key, default)`. -/
def stepGet (step : Value) (key : String) (default : Value) : Except PyError Value :=
  match step.asDict with
  | none => .error .attributeError
  | some kvs => .ok ((kvs.lookup key).getD default)

section Weights
variable (py : PyText)

def stepDay (step : Value) : Except PyError (Value × F64) := do
  let day ← stepGet step "day" (.int 0)
  let day ← pyFloatOf py day
  .ok (step, day)

/-- `max(steps, key=day)`: the first of the latest. -/
def latestStep : Value × F64 → List (Value × F64) → Value
  | best, [] => best.1
  | best, s :: steps => latestStep (if F64.gt s.2 best.2 then s else best) steps

def currentRampWeight (variant : Dict) (elapsed : ℚ) : Except PyError (Option F64) :=
  match rampSteps variant with
  | none => .ok none
  | some ramp => do
    let days ← ramp.mapM (stepDay py)
    let step := match days.filter fun s => F64.le s.2 (.finite elapsed) with
      | [] => ramp.headD .null
      | s :: steps => latestStep s steps
    let weight ← stepGet step "weight" ((variant.lookup "weight").getD (.int 0))
    let weight ← pyFloatOf py weight
    .ok (some weight)

/-- `int(variant.get("weight", 0))`, or 0. -/
def staticWeight (variant : Dict) : Except PyError ℤ :=
  match pyIntOf py ((variant.lookup "weight").getD (.int 0)) with
  | .ok n => .ok n
  | .error .typeError | .error .valueError => .ok 0
  | .error e => .error e

def effectiveWeight (elapsed : Option ℚ) (variant : Dict) : Except PyError ℤ :=
  match elapsed with
  | none => staticWeight py variant
  | some days => do
    match ← currentRampWeight py variant days with
    | some ramped => truncF64 ramped
    | none => staticWeight py variant

def championIndex (variants : List Dict) : ℕ :=
  match variants.findIdx? fun v =>
    lower (py.str ((v.lookup "role").getD (.str ""))) == "champion" with
  | some i => i
  | none => 0

/-- `_weights_for`: under a ramp the champion takes what the others leave. -/
def weightsFor (variants : List Dict) (elapsed : Option ℚ) : Except PyError (List ℤ) := do
  let weights ← variants.mapM (effectiveWeight py elapsed)
  if elapsed.isNone ∨ variants.all (fun v => (rampSteps v).isNone) then .ok weights
  else
    let champion := championIndex py variants
    let others := (weights.eraseIdx champion).sum
    .ok (weights.set champion (max 0 (100 - others)))

/-! ### Assignment -/

/-- The first variant whose share holds the bucket, or the last one. -/
def pickVariant (bucket cumulative : ℤ) : List (Dict × ℤ) → Option Dict
  | [] => none
  | [(variant, _)] => some variant
  | (variant, weight) :: rest =>
    if bucket < cumulative + weight then some variant
    else pickVariant bucket (cumulative + weight) rest

variable (md5 : String → ℕ)

def bucketOf (experimentId userId : String) : ℤ := (md5 (experimentId ++ ":" ++ userId) % 100 : ℕ)

def assignVariant (userId experimentId : String) (variants : List Dict) (elapsed : Option ℚ) :
    Except PyError (Option Dict) :=
  if userId = "" ∨ variants = [] then .ok none
  else do
    let weights ← weightsFor py variants elapsed
    .ok (pickVariant (bucketOf md5 experimentId userId) 0 (variants.zip weights))

/-- The first experiment that assigns a variant; an empty variant is none. -/
def firstAssigned (assign : Experiment → Except PyError (Option Dict)) :
    List Experiment → Except PyError (Option (Experiment × Dict))
  | [] => .ok none
  | e :: es => do
    match ← assign e with
    | some (kv :: kvs) => .ok (some (e, kv :: kvs))
    | _ => firstAssigned assign es

/-- Creation order: `(str(created_at or ""), str(id or ""))`. -/
def olderOrSame (a b : Experiment) : Bool :=
  let key (e : Experiment) : String := e.createdAt.getD ""
  key a < key b || (key a == key b && a.id ≤ b.id)

def candidates (experiments : List Experiment) (policyId : String) : List Experiment :=
  experiments.filter fun e => e.running && e.targetPolicyId == some policyId

/-- `resolve_experiment_assignment`, at the moment `now`. -/
def resolveExperimentAssignment (experiments : List Experiment) (policyId : String)
    (userId : Option String) (now : ℚ) : Except PyError (Option (Experiment × Dict)) :=
  match userId.filter (· ≠ "") with
  | none => .ok none
  | some user =>
    firstAssigned
      (fun e => assignVariant py md5 user e.id e.variants (elapsedDays now e.startDate))
      ((candidates experiments policyId).mergeSort olderOrSame)

def bundleExperiments (experiments : List Experiment) : List Experiment :=
  experiments.filter Experiment.running

/-- `_resolve_experiment`: an experiment without a target is for every policy. -/
def resolveExperiment (bundle : List Experiment) (policyId : String) (subjectId : Option String) :
    Except PyError (Option (Experiment × Dict)) :=
  match subjectId.filter (· ≠ "") with
  | none => .ok none
  | some subject =>
    firstAssigned (fun e => assignVariant py md5 subject e.id e.variants none)
      (bundle.filter fun e => e.running &&
        (e.targetPolicyId == none || e.targetPolicyId == some policyId))

end Weights

/-! ### The device -/

section Device
variable (md5 : String → ℕ)

/-- A number as a 64-bit integer: cut off, and held at the ends of the range. -/
def dartToInt (n : ℤ) : ℤ := max (-2 ^ 63) (min n (2 ^ 63 - 1))

/-- `(json["weight"] as num).toInt()`. -/
def dartWeight (variant : Dict) : Option ℤ :=
  match variant.lookup "weight" with
  | some (.int n) => some (dartToInt n)
  | some (.float q) => some (dartToInt (Int.tdiv q.num q.den))
  | _ => none

/-- `ExperimentVariant.fromJson`: the weight; nothing where a cast fails. -/
def variantFromJson (variant : Dict) : Option ℤ :=
  match variant.lookup "id", variant.lookup "overrides" with
  | some (.str _), none | some (.str _), some .null | some (.str _), some (.dict _) =>
    dartWeight variant
  | _, _ => none

def wrapping (a b : ℤ) : ℤ := Int.bmod (a + b) (2 ^ 64)

/-- The loop of `assign`. -/
def dartPick (bucket cumulative : ℤ) : List (Dict × ℤ) → Option Dict
  | [] => none
  | [(variant, _)] => some variant
  | (variant, weight) :: rest =>
    if bucket < wrapping cumulative weight then some variant
    else dartPick bucket (wrapping cumulative weight) rest

/-- `ExperimentManager.assign`. -/
def dartAssign (e : Experiment) (weights : List ℤ) (userId : Option String) : Option Dict :=
  match userId.filter (· ≠ "") with
  | none => none
  | some user =>
    if !e.running || e.variants.isEmpty then none
    else dartPick (bucketOf md5 e.id user) 0 (e.variants.zip weights)

/-- The selection of `evaluate`; nothing if the bundle does not load. -/
def dartSelect (bundle : List Experiment) (policyId : String) (userId : Option String) :
    Option (Option (Experiment × Dict)) := do
  let decoded ← bundle.mapM fun e => do
    let weights ← e.variants.mapM variantFromJson
    some (e, weights)
  match decoded.find? fun d => d.1.running && d.1.targetPolicyId == some policyId with
  | none => some none
  | some (e, weights) => some ((dartAssign md5 e weights userId).map fun v => (e, v))

end Device

/-! ### Weights that all three read alike -/

/-- The weight a variant was authored with, where it is a number. -/
def authoredWeight (variant : Dict) : ℤ :=
  match variant.lookup "weight" with
  | some (.int n) => n
  | some (.float q) => Int.tdiv q.num q.den
  | _ => 0

theorem dartWeight_eq {variant : Dict} {w : ℤ} (h : dartWeight variant = some w) :
    w = dartToInt (authoredWeight variant) ∧
      ∀ py, staticWeight py variant = .ok (authoredWeight variant) := by
  unfold dartWeight at h
  unfold authoredWeight staticWeight
  split at h
  case h_1 n hn =>
    rw [hn]
    cases h
    exact ⟨rfl, fun py => rfl⟩
  case h_2 q hq =>
    rw [hq]
    cases h
    exact ⟨rfl, fun py => rfl⟩
  case h_3 => cases h

theorem variantFromJson_eq {variant : Dict} {w : ℤ} (h : variantFromJson variant = some w) :
    dartWeight variant = some w ∧ variant ≠ [] := by
  constructor
  · grind [variantFromJson]
  · rintro rfl
    cases h

theorem mapM_pure_map {m : Type → Type} [Monad m] [LawfulMonad m] {α β : Type} {f : α → m β}
    {g : α → β} {l : List α} (h : ∀ a ∈ l, f a = pure (g a)) : l.mapM f = pure (l.map g) := by
  induction l with
  | nil => rfl
  | cons a l ih => simp_all

theorem weightsFor_authored (py : PyText) {variants : List Dict} {elapsed : Option ℚ}
    (hlevel : elapsed = none ∨ ∀ v ∈ variants, rampSteps v = none)
    (hstatic : ∀ v ∈ variants, staticWeight py v = .ok (authoredWeight v)) :
    weightsFor py variants elapsed = .ok (variants.map authoredWeight) := by
  have heffective : ∀ v ∈ variants, effectiveWeight py elapsed v = .ok (authoredWeight v) := by
    intro v hv
    unfold effectiveWeight
    cases elapsed with
    | none => exact hstatic v hv
    | some days =>
      have hramp : rampSteps v = none := by
        rcases hlevel with h | h
        · cases h
        · exact h v hv
      simp only [currentRampWeight, hramp]
      exact hstatic v hv
  have hcond : elapsed.isNone = true ∨ variants.all (fun v => (rampSteps v).isNone) = true := by
    rcases hlevel with h | h
    · exact Or.inl (by rw [h]; rfl)
    · simp_all
  unfold weightsFor
  rw [mapM_pure_map heffective]
  show (if _ then _ else _) = _
  rw [if_pos hcond]

theorem dartPick_eq (bucket : ℤ) {pairs : List (Dict × ℤ)} {cumulative : ℤ}
    (h : ∀ k, -2 ^ 63 ≤ cumulative + ((pairs.map Prod.snd).take k).sum ∧
      cumulative + ((pairs.map Prod.snd).take k).sum < 2 ^ 63) :
    dartPick bucket cumulative pairs = pickVariant bucket cumulative pairs := by
  induction pairs generalizing cumulative with
  | nil => rfl
  | cons p rest ih =>
    obtain ⟨variant, weight⟩ := p
    cases rest with
    | nil => rfl
    | cons q rest =>
      have hsum : wrapping cumulative weight = cumulative + weight := by
        have h1 := h 1
        simp only [List.map_cons, List.take_succ_cons, List.take_zero, List.sum_cons, List.sum_nil,
          add_zero] at h1
        unfold wrapping
        rw [Int.bmod_eq_of_le] <;> omega
      show (if bucket < wrapping cumulative weight then _ else _) = if bucket < _ then _ else _
      rw [hsum, ih]
      intro k
      have hk := h (k + 1)
      grind

/-! ### The three selections -/

/-- What a device can sum: every weight and every partial sum in 64 bits. -/
def InRange (variants : List Dict) : Prop :=
  (∀ v ∈ variants, -2 ^ 63 ≤ authoredWeight v ∧ authoredWeight v < 2 ^ 63) ∧
    ∀ k, -2 ^ 63 ≤ ((variants.map authoredWeight).take k).sum ∧
      ((variants.map authoredWeight).take k).sum < 2 ^ 63

/-- The experiments, as far as they concern a policy at a moment, leave the three engines
    nothing to read differently. -/
structure Comparable (experiments : List Experiment) (policyId : String) : Prop where
  /-- A running experiment names its policy. -/
  targeted : ∀ e ∈ experiments, e.running = true → e.targetPolicyId ≠ none
  /-- The bundle lists those of the policy oldest first. -/
  ordered : (candidates experiments policyId).Pairwise fun a b => olderOrSame a b = true
  /-- None of them ramps. -/
  level : ∀ e ∈ candidates experiments policyId, e.startDate = none ∨
    ∀ v ∈ e.variants, rampSteps v = none
  /-- The first of them has variants, or is the only one. -/
  filled : ∀ e es, candidates experiments policyId = e :: es → e.variants = [] → es = []
  /-- The device can load every variant. -/
  readable : ∀ e ∈ bundleExperiments experiments, ∀ v ∈ e.variants,
    (variantFromJson v).isSome = true
  inRange : ∀ e ∈ candidates experiments policyId, InRange e.variants

section Selection
variable {experiments : List Experiment} {policyId : String}

variable {e : Experiment}

theorem candidates_sub (he : e ∈ candidates experiments policyId) :
    e ∈ bundleExperiments experiments := by
  obtain ⟨hmem, hp⟩ := List.mem_filter.1 he
  exact List.mem_filter.2 ⟨hmem, (Bool.and_eq_true_iff.1 hp).1⟩

theorem coreCandidates_eq (h : ∀ e ∈ experiments, e.running = true → e.targetPolicyId ≠ none) :
    ((bundleExperiments experiments).filter fun e => e.running &&
        (e.targetPolicyId == none || e.targetPolicyId == some policyId)) =
      candidates experiments policyId := by
  unfold bundleExperiments candidates
  rw [List.filter_filter]
  grind -ring -linarith [List.filter_congr]

variable {py : PyText} {md5 : String → ℕ}

variable {user : String} {pairs : List (Dict × ℤ)} {v : Dict} {assign : Experiment → Except
  PyError (Option Dict)}

theorem assignVariant_authored {elapsed : Option ℚ} (huser : user ≠ "") (hne : e.variants ≠ [])
    (hlevel : elapsed = none ∨ ∀ v ∈ e.variants, rampSteps v = none)
    (hread : ∀ v ∈ e.variants, (variantFromJson v).isSome = true) :
    assignVariant py md5 user e.id e.variants elapsed =
      .ok (pickVariant (bucketOf md5 e.id user) 0
        (e.variants.zip (e.variants.map authoredWeight))) := by
  have hstatic : ∀ v ∈ e.variants, staticWeight py v = .ok (authoredWeight v) := by
    intro v hv
    obtain ⟨w, hw⟩ := Option.isSome_iff_exists.1 (hread v hv)
    exact (dartWeight_eq (variantFromJson_eq hw).1).2 py
  unfold assignVariant
  rw [if_neg (not_or.2 ⟨huser, hne⟩), weightsFor_authored py hlevel hstatic]
  rfl

theorem pickVariant_mem {bucket cumulative : ℤ}
    (h : pickVariant bucket cumulative pairs = some v) : v ∈ pairs.map Prod.fst := by
  induction pairs generalizing cumulative with
  | nil => cases h
  | cons p rest ih =>
    cases rest with
    | nil =>
      cases h
      simp
    | cons q rest => grind [pickVariant]

theorem pickVariant_isSome (bucket cumulative : ℤ) (h : pairs ≠ []) :
    (pickVariant bucket cumulative pairs).isSome = true := by
  induction pairs generalizing cumulative with
  | nil => exact absurd rfl h
  | cons p rest ih =>
    cases rest with
    | nil => rfl
    | cons q rest => grind [pickVariant]

theorem decoded_eq (h : ∀ e ∈ bundleExperiments experiments, ∀ v ∈ e.variants,
    (variantFromJson v).isSome = true) :
    ((bundleExperiments experiments).mapM fun e => do
        let weights ← e.variants.mapM variantFromJson
        some (e, weights)) =
      some ((bundleExperiments experiments).map fun e =>
        (e, e.variants.map fun v => dartToInt (authoredWeight v))) := by
  refine mapM_pure_map fun e he => ?_
  have hweights : e.variants.mapM variantFromJson =
      some (e.variants.map fun v => dartToInt (authoredWeight v)) :=
    mapM_pure_map fun v hv => by grind [Option.isSome_iff_exists, dartWeight_eq, variantFromJson_eq]
  rw [hweights]
  rfl

theorem dartSelect_eq (userId : Option String)
    (h : ∀ e ∈ bundleExperiments experiments, ∀ v ∈ e.variants, (variantFromJson v).isSome = true) :
    dartSelect md5 (bundleExperiments experiments) policyId userId =
      some ((candidates experiments policyId).head?.bind fun e =>
        (dartAssign md5 e (e.variants.map fun v => dartToInt (authoredWeight v)) userId).map
          fun v => (e, v)) := by
  have hfirst : (bundleExperiments experiments).find?
      (fun e => e.running && e.targetPolicyId == some policyId) =
      (candidates experiments policyId).head? := by
    unfold bundleExperiments candidates
    rw [← List.head?_filter, List.filter_filter]
    congr 1
    refine List.filter_congr fun e _ => ?_
    cases e.running <;> simp
  unfold dartSelect
  rw [decoded_eq h]
  simp only [Option.bind_eq_bind, Option.bind_some, List.find?_map, Function.comp_def, hfirst]
  cases (candidates experiments policyId).head? <;> rfl

theorem dartAssign_eq (huser : user ≠ "")
    (hrun : e.running = true) (hne : e.variants ≠ []) (hrange : InRange e.variants) :
    dartAssign md5 e (e.variants.map fun v => dartToInt (authoredWeight v)) (some user) =
      pickVariant (bucketOf md5 e.id user) 0 (e.variants.zip (e.variants.map authoredWeight)) := by
  have hweights : (e.variants.map fun v => dartToInt (authoredWeight v)) =
      e.variants.map authoredWeight := by
    refine List.map_congr_left fun v hv => ?_
    have := hrange.1 v hv
    unfold dartToInt
    omega
  have hsnd : (e.variants.zip (e.variants.map authoredWeight)).map Prod.snd =
      e.variants.map authoredWeight := List.map_snd_zip (by simp)
  unfold dartAssign
  rw [hweights]
  simp only [Option.filter_some, ne_eq, huser, not_false_eq_true, decide_true, if_true, hrun,
    Bool.not_true, Bool.false_or, List.isEmpty_iff, hne, if_false]
  refine dartPick_eq _ fun k => ?_
  rw [hsnd, zero_add]
  exact hrange.2 k

theorem firstAssigned_head (h : assign e = .ok (some v)) (hv : v ≠ []) (es : List Experiment) :
    firstAssigned assign (e :: es) = .ok (some (e, v)) := by
  cases v with
  | nil => exact absurd rfl hv
  | cons kv kvs =>
    rw [firstAssigned, h]
    rfl

theorem firstAssigned_skip (h : assign e = .ok none) (es : List Experiment) :
    firstAssigned assign (e :: es) = firstAssigned assign es := by
  rw [firstAssigned, h]
  rfl

end Selection

def sampleMd5 (text : String) : ℕ :=
  if text = "exp:user" then 0x13f9c0217ff3ee2127be71dd2037d8ef else 0

def evenVariants : List Dict :=
  [[("id", .str "a"), ("weight", .int 50)], [("id", .str "b"), ("weight", .int 50)]]

def evenSplit : Experiment :=
  ⟨"exp", "Split", "running", some "p", some 0, some "2026-01-01T00:00:00Z", evenVariants⟩

/-- A challenger that takes everything from the first day on. -/
def rampedSplit : Experiment :=
  { evenSplit with
    variants := [[("id", .str "a"), ("role", .str "champion"), ("weight", .int 100)],
      [("id", .str "b"), ("weight", .int 0),
        ("ramp", .list [.dict [("day", .int 0), ("weight", .int 100)]])]] }

def pickedId : Except PyError (Option (Experiment × Dict)) → Option Value
  | .ok (some (_, variant)) => variant.lookup "id"
  | _ => none

end RuleMind
