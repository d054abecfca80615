/-
  The scores of the device and of the server on stored scorecards.
-/
import RuleMind.StoredScorecard

namespace RuleMind.DartScore

open Text (F64)
open RuleTree (iterate)

section Matching
variable {py : PyText}

/-! ### Factors -/

variable {kvs vars : Dict} {α : Type} {v : Option Value} {ids : List String} {breakdown : List
  FactorResult} {entries : List BreakdownEntry}

variable {key : String} {vs : List Value} {β : Type} {as : List α} {factor value : Value} {found :
  Option Value} {range : Option Dict} {a b : List (String × α)}

theorem rangeNumber_dict (h : Number ((Value.dict kvs).field key)) :
    rangeNumberOver (exact py) key (some (.dict kvs)) =
      .ok (.finite (numberOr ((Value.dict kvs).field key) 0)) := by
  have hfloat : Exact.float py (((Value.dict kvs).field key).getD (.int 0)) =
      .ok (.finite (numberOr ((Value.dict kvs).field key) 0)) :=
    float_number h (congrArg (fun q : ℚ => Except.ok (F64.finite q)) Int.cast_zero)
  cases kvs with
  | nil => rfl
  | cons kv kvs => exact hfloat

theorem rangePoints_dict (h : Number ((Value.dict kvs).field "points")) :
    rangePoints py (some (.dict kvs)) = .ok (intOr ((Value.dict kvs).field "points") 0) := by
  have hint : pyIntOf py (((Value.dict kvs).field "points").getD (.int 0)) =
      .ok (intOr ((Value.dict kvs).field "points") 0) := pyInt_number h 0
  cases kvs with
  | nil => rfl
  | cons kv kvs => exact hint

theorem mem_objects (h : kvs ∈ objects vs) : Value.dict kvs ∈ vs := by
  obtain ⟨v, hv, hdict⟩ := List.mem_filterMap.1 h
  rwa [← asDict_eq hdict]

theorem mapM_reads {f : α → Option β} {g : α → β}
    (h : ∀ a ∈ as, f a = some (g a)) : as.mapM f = some (as.map g) := by
  induction as with
  | nil => rfl
  | cons a as ih => simp_all

def rangeOf (kvs : Dict) : ScoreRange where
  min := (ScoreBound.fromJson kvs "min").value
  max := (ScoreBound.fromJson kvs "max").value
  points := intOr ((Value.dict kvs).field "points") 0
  matchable :=
    (ScoreBound.fromJson kvs "min").matchable && (ScoreBound.fromJson kvs "max").matchable

theorem range_read (h : StoredRange (.dict kvs)) :
    ScoreRange.fromJson kvs = some (rangeOf kvs) := by
  obtain ⟨n, hn, hpoints⟩ := asInt_number h.points 0
  have hlookup : asInt (kvs.lookup "points") = some n := hn
  unfold ScoreRange.fromJson rangeOf
  rw [hlookup, ← hpoints]
  rfl

theorem woe_read (h : StoredWoeRange (.dict kvs)) :
    (WoeRange.fromJson kvs).woe = .finite (numberOr ((Value.dict kvs).field "woe") 0) ∧
      (WoeRange.fromJson kvs).iv = .finite (numberOr ((Value.dict kvs).field "iv") 0) :=
  ⟨asDouble_number h.woe 0, asDouble_number h.iv 0⟩

theorem iterate_items (h : ListOrNull v) (hiter : iterate v = .ok vs) : vs = items v := by
  rcases h with (rfl | rfl) | ⟨us, rfl⟩
  · cases hiter
    rfl
  · cases hiter
  · cases hiter
    rfl

theorem iterate_orElse (h : ListOrNull v) :
    iterate (some (Value.orElse v (.list []))) = .ok (items v) := by
  rcases h with (rfl | rfl) | ⟨vs, rfl⟩
  · rfl
  · rfl
  · cases vs with
    | nil => rfl
    | cons v vs => rfl

/-- What the two entries of a factor have in common. -/
structure SameFactor (fr : FactorResult) (entry : BreakdownEntry) : Prop where
  binding : binding (fr.variableId, fr.value) =
    entry.variableId.map fun id => (id, some entry.value)
  weightedPoints : fr.weightedPoints = entry.weightedPoints
  woe : fr.woe = entry.woe
  iv : fr.iv = entry.iv
  coefficient : fr.coefficient = entry.coefficient

def textOf : Option Value → Option String
  | some (.str s) => some s
  | _ => none

def factorOf (kvs : Dict) : ScoreFactor where
  variableId := textOf ((Value.dict kvs).field "variable_id")
  ranges := (objects (items ((Value.dict kvs).field "ranges"))).map rangeOf
  weight := .finite (numberOr ((Value.dict kvs).field "weight") 1)
  coefficient := .finite (numberOr ((Value.dict kvs).field "coefficient") 0)
  woeValues := (objects (items ((Value.dict kvs).field "woe_values"))).map WoeRange.fromJson

theorem asText_textOf (h : TextOrNull v) : asText v = some (textOf v) := by
  rcases h with (rfl | rfl) | ⟨s, rfl⟩
  · rfl
  · rfl
  · rfl

theorem factor_read (h : StoredFactor (.dict kvs)) :
    ScoreFactor.fromJson kvs = some (factorOf kvs) := by
  have hid : asText (orElse (kvs.lookup "variableId") (kvs.lookup "variable_id")) =
      some (textOf ((Value.dict kvs).field "variable_id")) := by
    rw [orElse_unspelled (h.spelling "variableId" (by decide))]
    exact asText_textOf h.variableId
  have hwoe : asMaps (orElse (kvs.lookup "woeValues") (kvs.lookup "woe_values")) =
      some (objects (items ((Value.dict kvs).field "woe_values"))) := by
    rw [orElse_unspelled (h.spelling "woeValues" (by decide))]
    exact asMaps_list h.woeValues
  have hranges : asMaps (kvs.lookup "ranges") =
      some (objects (items ((Value.dict kvs).field "ranges"))) := asMaps_list h.ranges
  have hread : (objects (items ((Value.dict kvs).field "ranges"))).mapM ScoreRange.fromJson =
      some ((objects (items ((Value.dict kvs).field "ranges"))).map rangeOf) :=
    mapM_reads fun range hr => range_read (h.range _ (mem_objects hr))
  have hweight : (asDouble (kvs.lookup "weight")).getD (.finite 1) =
      .finite (numberOr ((Value.dict kvs).field "weight") 1) := asDouble_number h.weight 1
  have hcoefficient : (asDouble (kvs.lookup "coefficient")).getD (.finite 0) =
      .finite (numberOr ((Value.dict kvs).field "coefficient") 0) := asDouble_number h.coefficient 0
  unfold ScoreFactor.fromJson factorOf
  simp_all

theorem value_found (h : TextOrNull (factor.field "variable_id"))
    (hget : pyGet vars (getOr factor "variable_id" .null) = .ok found) :
    found = (textOf (factor.field "variable_id")).bind fun id => vars.lookup id := by
  unfold getOr at hget
  rcases h with (h | h) | ⟨s, h⟩
  · rw [h] at hget ⊢
    cases hget
    rfl
  · rw [h] at hget ⊢
    cases hget
    rfl
  · rw [h] at hget ⊢
    cases hget
    rfl

theorem binding_textOf (h : TextOrNull (factor.field "variable_id")) :
    binding (getOr factor "variable_id" .null, value) =
      (textOf (factor.field "variable_id")).map fun id => (id, some value) := by
  unfold getOr
  rcases h with (h | h) | ⟨s, h⟩
  · rw [h]
    rfl
  · rw [h]
    rfl
  · rw [h]
    rfl

def ReadAlike (py : PyText) (ids : List String) (vars : Dict) : Prop :=
  ∀ id ∈ ids, ∀ v, vars.lookup id = some v → serverNumber py v = deviceNumber v

theorem found_alike {id : Option String}
    (hread : ReadAlike py ids vars) (hid : ∀ s, id = some s → s ∈ ids) :
    serverNumber py ((id.bind fun id => vars.lookup id).getD (.int 0)) =
      deviceNumber ((id.bind fun id => vars.lookup id).getD (.int 0)) := by
  cases id with
  | none => rfl
  | some s =>
    show serverNumber py ((vars.lookup s).getD (.int 0)) = _
    cases hv : vars.lookup s with
    | none => simp only [Option.bind_some, hv]; rfl
    | some v =>
      simp only [Option.bind_some, hv]
      exact hread s (hid s rfl) v hv

theorem active_alike (read : Dict → α) (test : α → F64 → Bool) {ranges : List Value}
    (hmin : ∀ r ∈ ranges, Bound (r.field "min")) (hmax : ∀ r ∈ ranges, Bound (r.field "max"))
    (htest : ∀ kvs ∈ objects ranges, ∀ x, test (read kvs) x = inBounds (.dict kvs) x.toRat)
    (hnumber : serverNumber py value = deviceNumber value)
    (h : activeRangeOver (exact py) value ranges = .ok found) :
    ∃ kvs : Option Dict, found = kvs.map .dict ∧ (∀ r, kvs = some r → r ∈ objects ranges) ∧
      ((pythonFloat value).bind fun x => ((objects ranges).map read).find? (test · x)) =
        kvs.map read := by
  refine ⟨(objects ranges).find? fun kvs => inBounds (.dict kvs) (serverNumber py value),
    active_found hmin hmax h, fun r hr => List.mem_of_find?_eq_some hr, ?_⟩
  rw [device_found read test htest value, hnumber]

theorem points_alike {points : ℤ}
    (hnumber : ∀ r, range = some r → Number ((Value.dict r).field "points"))
    (h : rangePoints py (range.map .dict) = .ok points) :
    points = ((range.map rangeOf).map ScoreRange.points).getD 0 := by
  cases range with
  | none =>
    cases h
    rfl
  | some r => exact Except.ok.inj (h.symm.trans (rangePoints_dict (hnumber r rfl)))

theorem number_alike {x : F64} (number : WoeRange → F64)
    (hnumber : ∀ r, range = some r → Number ((Value.dict r).field key) ∧
      number (WoeRange.fromJson r) = .finite (numberOr ((Value.dict r).field key) 0))
    (h : rangeNumberOver (exact py) key (range.map .dict) = .ok x) :
    x = ((range.map WoeRange.fromJson).map number).getD (.finite 0) := by
  cases range with
  | none =>
    cases h
    rfl
  | some r =>
    obtain ⟨hr, hread⟩ := hnumber r rfl
    grind [rangeNumber_dict]

theorem factor_alike {fr : FactorResult}
    (hstored : StoredFactor (.dict kvs)) (hread : ReadAlike py ids vars)
    (hid : ∀ s, textOf ((Value.dict kvs).field "variable_id") = some s → s ∈ ids)
    (h : evaluateFactorOver (exact py) py vars (.dict kvs) = .ok fr) :
    SameFactor fr (evaluateFactor vars (factorOf kvs)) := by
  obtain ⟨found, hfound, h⟩ := bind_eq_ok.1 h
  obtain ⟨weight, hweight, h⟩ := bind_eq_ok.1 h
  obtain ⟨coefficient, hcoefficient, h⟩ := bind_eq_ok.1 h
  obtain ⟨ranges, hranges, h⟩ := bind_eq_ok.1 h
  obtain ⟨active, hactive, h⟩ := bind_eq_ok.1 h
  obtain ⟨woeRanges, hwoeRanges, h⟩ := bind_eq_ok.1 h
  obtain ⟨activeWoe, hactiveWoe, h⟩ := bind_eq_ok.1 h
  obtain ⟨points, hpoints, h⟩ := bind_eq_ok.1 h
  obtain ⟨weighted, hweighted, h⟩ := bind_eq_ok.1 h
  obtain ⟨woe, hwoe, h⟩ := bind_eq_ok.1 h
  obtain ⟨iv, hiv, h⟩ := bind_eq_ok.1 h
  cases h
  have hweight' : weight = .finite (numberOr ((Value.dict kvs).field "weight") 1) :=
    (Except.ok.inj ((float_number hstored.weight rfl).symm.trans hweight)).symm
  have hcoefficient' : coefficient = .finite (numberOr ((Value.dict kvs).field "coefficient") 0) :=
    (Except.ok.inj ((float_number hstored.coefficient rfl).symm.trans hcoefficient)).symm
  have hfound' := value_found hstored.variableId hfound
  have hnumber := found_alike hread hid
  rw [← hfound'] at hnumber
  rw [iterate_items hstored.ranges hranges] at hactive
  rw [iterate_orElse hstored.woeValues] at hwoeRanges
  cases hwoeRanges
  obtain ⟨range, rfl, hmem, hdevice⟩ := active_alike rangeOf
    (fun range => covers range.min range.max range.matchable)
    (fun r hr => (hstored.range r hr).min) (fun r hr => (hstored.range r hr).max)
    (fun r hr => covers_bounds (hstored.range _ (mem_objects hr)).min
      (hstored.range _ (mem_objects hr)).max) hnumber hactive
  obtain ⟨woeRange, rfl, hmem', hdevice'⟩ := active_alike WoeRange.fromJson
    (fun range => covers range.min range.max range.matchable)
    (fun r hr => (hstored.woeRange r hr).min) (fun r hr => (hstored.woeRange r hr).max)
    (fun r hr => covers_bounds (hstored.woeRange _ (mem_objects hr)).min
      (hstored.woeRange _ (mem_objects hr)).max) hnumber hactiveWoe
  have hpoints' := points_alike
    (fun r hr => (hstored.range _ (mem_objects (hmem r hr))).points) hpoints
  have hwoe' := number_alike WoeRange.woe
    (fun r hr => ⟨(hstored.woeRange _ (mem_objects (hmem' r hr))).woe,
      (woe_read (hstored.woeRange _ (mem_objects (hmem' r hr)))).1⟩) hwoe
  have hiv' := number_alike WoeRange.iv
    (fun r hr => ⟨(hstored.woeRange _ (mem_objects (hmem' r hr))).iv,
      (woe_read (hstored.woeRange _ (mem_objects (hmem' r hr)))).2⟩) hiv
  have hentry : evaluateFactor vars (factorOf kvs) = ⟨textOf ((Value.dict kvs).field "variable_id"),
      found.getD (.int 0), points, truncate (Exact.mul (.finite points) weight), weight, woe, iv,
      coefficient⟩ := by
    rw [hpoints', hwoe', hiv', hweight', hcoefficient', ← hdevice, ← hdevice', hfound']
    rfl
  rw [hentry]
  refine ⟨binding_textOf hstored.variableId, ?_, rfl, rfl, rfl⟩
  rw [hweight'] at hweighted ⊢
  exact (Except.ok.inj hweighted).symm

/-! ### Breakdowns -/

def variableIds (kvs : Dict) : List String :=
  (objects (items ((Value.dict kvs).field "bins"))).filterMap fun factor =>
    textOf ((Value.dict factor).field "variable_id")

theorem breakdown_alike {bins : List Value} (hstored : ∀ f ∈ bins, StoredFactor f)
    (hread : ReadAlike py ids vars)
    (hids : ∀ kvs ∈ objects bins, ∀ s,
      textOf ((Value.dict kvs).field "variable_id") = some s → s ∈ ids)
    (h : bins.mapM (evaluateFactorOver (exact py) py vars) = .ok breakdown) :
    List.Forall₂ SameFactor breakdown
      (((objects bins).map factorOf).map (evaluateFactor vars)) := by
  induction bins generalizing breakdown with
  | nil =>
    cases h
    exact .nil
  | cons bin bins ih =>
    rw [List.mapM_cons] at h
    obtain ⟨fr, hfr, h⟩ := bind_eq_ok.1 h
    obtain ⟨frs, hfrs, h⟩ := bind_eq_ok.1 h
    cases h
    cases hdict : bin.asDict with
    | none =>
      rw [evaluateFactorOver, hdict] at hfr
      cases hfr
    | some kvs =>
      have hobjects : objects (bin :: bins) = kvs :: objects bins := List.filterMap_cons_some hdict
      rw [hobjects] at hids ⊢
      rw [asDict_eq hdict] at hfr hstored
      have hfactor := factor_alike (hstored _ List.mem_cons_self) hread
        (hids kvs List.mem_cons_self) hfr
      exact .cons hfactor
        (ih (fun f hf => hstored f (List.mem_cons_of_mem _ hf))
          (fun kvs hkvs => hids kvs (List.mem_cons_of_mem _ hkvs)) hfrs)

theorem map_alike {γ : Type} {R : α → β → Prop} {f : α → γ} {g : β → γ}
    {bs : List β} (h : List.Forall₂ R as bs) (hR : ∀ a b, R a b → f a = g b) :
    as.map f = bs.map g := by
  induction h with
  | nil => rfl
  | cons hab _ ih => rw [List.map_cons, List.map_cons, hR _ _ hab, ih]

/-! ### Names of formulas -/

theorem lookup_moved (key : String) (x : α) (h : ∀ kv ∈ a, kv.1 ≠ key) (name : String) :
    (a ++ (key, x) :: b).lookup name = ((key, x) :: (a ++ b)).lookup name := by grind

theorem lookup_behind {name : String} (kv : String × α)
    (h : a.lookup name = b.lookup name) : (kv :: a).lookup name = (kv :: b).lookup name := by
  rw [List.lookup_cons, List.lookup_cons, h]

theorem entries_alike (h : List.Forall₂ SameFactor breakdown entries) :
    (breakdown.map fun f => (f.variableId, f.value)).filterMap binding =
      entries.filterMap fun entry => entry.variableId.map fun id => (id, some entry.value) := by
  induction h with
  | nil => rfl
  | cons hab _ ih => rw [List.map_cons, List.filterMap_cons, List.filterMap_cons, hab.binding, ih]

theorem points_total (h : List.Forall₂ SameFactor breakdown entries) :
    (breakdown.map FactorResult.weightedPoints).sum =
      (entries.map BreakdownEntry.weightedPoints).sum :=
  congrArg List.sum (map_alike h fun _ _ hab => hab.weightedPoints)

theorem woe_total (h : List.Forall₂ SameFactor breakdown entries) :
    (breakdown.map fun f => Exact.mul f.coefficient f.woe).foldl Exact.add (.finite 0) =
      (entries.map fun e => Exact.mul e.coefficient e.woe).foldl Exact.add (.finite 0) :=
  congrArg (List.foldl Exact.add (.finite 0))
    (map_alike h fun _ _ hab => by rw [hab.coefficient, hab.woe])

theorem iv_total (h : List.Forall₂ SameFactor breakdown entries) :
    totalIvOver (exact py) breakdown =
      (entries.map BreakdownEntry.iv).foldl Exact.add (.finite 0) :=
  congrArg (List.foldl Exact.add (.finite 0)) (map_alike h fun _ _ hab => hab.iv)

section Context
variable {baseScore maxScore : ℤ} {vars : Dict} {breakdown : List FactorResult}
  {entries : List BreakdownEntry} {card : Scorecard}

theorem scoreNames_alike (h : List.Forall₂ SameFactor breakdown entries) :
    serverNames (formulaContext (exact py) card.baseScore card.maxScore vars breakdown) =
      formulaNames card vars entries ((entries.map BreakdownEntry.weightedPoints).sum)
        ((entries.map fun e => Exact.mul e.coefficient e.woe).foldl Exact.add (.finite 0)) [] := by
  unfold serverNames formulaNames
  rw [← points_total h, ← woe_total h, ← entries_alike h]
  rfl

theorem metricNames_alike (h : List.Forall₂ SameFactor breakdown entries) (score : ℤ) (iv : F64) :
    serverNames { formulaContext (exact py) card.baseScore card.maxScore vars breakdown with
        score := some score, totalIv := some iv } =
      formulaNames card vars entries ((entries.map BreakdownEntry.weightedPoints).sum)
        ((entries.map fun e => Exact.mul e.coefficient e.woe).foldl Exact.add (.finite 0))
        [("score", some (.int score)), ("total_iv", F64.toValue iv)] := by
  unfold serverNames formulaNames
  rw [← points_total h, ← woe_total h, ← entries_alike h]
  unfold scope
  funext name
  congr 2
  have hmoved := lookup_moved "total_iv" (F64.toValue iv)
    (a := [("total_woe_score", F64.toValue ((breakdown.map fun f =>
        Exact.mul f.coefficient f.woe).foldl Exact.add (.finite 0))),
      ("total_points", some (.int (breakdown.map FactorResult.weightedPoints).sum)),
      ("max_score", some (.int card.maxScore)), ("base_score", some (.int card.baseScore))])
    (b := [("score", some (.int score))]) (by simp) name
  exact lookup_behind ("variables", some (.dict vars)) hmoved.symm

end Context

/-! ### Cards -/

def metricOf (kvs : Dict) : ScorecardMetric where
  name := (textOf ((Value.dict kvs).field "name")).getD "unnamed"
  formula := (textOf ((Value.dict kvs).field "formula")).getD "0"
  unit := (textOf ((Value.dict kvs).field "unit")).getD ""
  category := (textOf ((Value.dict kvs).field "category")).getD "financial"

theorem textOrNull_text (h : v = none ∨ ∃ s, v = some (.str s)) : TextOrNull v := by
  rcases h with h | h
  · exact Or.inl (Or.inl h)
  · exact Or.inr h

theorem metric_read (h : StoredMetric (.dict kvs)) :
    ScorecardMetric.fromJson kvs = some (metricOf kvs) := by
  have hname : asText (kvs.lookup "name") = some (textOf ((Value.dict kvs).field "name")) :=
    asText_textOf (textOrNull_text h.name)
  have hformula : asText (kvs.lookup "formula") =
      some (textOf ((Value.dict kvs).field "formula")) := asText_textOf h.formula
  have hunit : asText (kvs.lookup "unit") = some (textOf ((Value.dict kvs).field "unit")) :=
    asText_textOf h.unit
  have hcategory : asText (kvs.lookup "category") =
      some (textOf ((Value.dict kvs).field "category")) := asText_textOf h.category
  simp_all [ScorecardMetric.fromJson, metricOf]

def cardOf (kvs : Dict) : Scorecard where
  id := (textOf ((Value.dict kvs).field "id")).getD ""
  name := (textOf ((Value.dict kvs).field "name")).getD ""
  baseScore := intOr ((Value.dict kvs).field "base_score") 300
  maxScore := intOr ((Value.dict kvs).field "max_score") 900
  bins := (objects (items ((Value.dict kvs).field "bins"))).map factorOf
  scoringMethod := (textOf ((Value.dict kvs).field "scoring_method")).getD "points"
  intercept := (asDouble (kvs.lookup "intercept")).getD (.finite 0)
  pdo := (asDouble (kvs.lookup "pdo")).getD (.finite 20)
  targetScore := (asDouble (orElse (kvs.lookup "targetScore")
    (kvs.lookup "target_score"))).getD (.finite 600)
  targetOdds := (asDouble (orElse (kvs.lookup "targetOdds")
    (kvs.lookup "target_odds"))).getD (.finite 50)
  formula := textOf ((Value.dict kvs).field "formula")
  metrics := (objects (items ((Value.dict kvs).field "metrics"))).map metricOf

theorem card_read (h : StoredCard (.dict kvs)) : Scorecard.fromJson kvs = some (cardOf kvs) := by
  have hid : asText (kvs.lookup "id") = some (textOf ((Value.dict kvs).field "id")) :=
    asText_textOf h.id
  have hname : asText (kvs.lookup "name") = some (textOf ((Value.dict kvs).field "name")) :=
    asText_textOf h.name
  have hformula : asText (kvs.lookup "formula") =
      some (textOf ((Value.dict kvs).field "formula")) := asText_textOf h.formula
  have hmethod : asText (orElse (kvs.lookup "scoringMethod") (kvs.lookup "scoring_method")) =
      some (textOf ((Value.dict kvs).field "scoring_method")) := by
    rw [orElse_unspelled (h.spelling "scoringMethod" (by decide))]
    exact asText_textOf h.method
  obtain ⟨base, hbase, hbaseScore⟩ := asInt_number h.baseScore 300
  obtain ⟨top, htop, hmaxScore⟩ := asInt_number h.maxScore 900
  have hbase' : asInt (orElse (kvs.lookup "baseScore") (kvs.lookup "base_score")) = some base := by
    rw [orElse_unspelled (h.spelling "baseScore" (by decide))]
    exact hbase
  have htop' : asInt (orElse (kvs.lookup "maxScore") (kvs.lookup "max_score")) = some top := by
    rw [orElse_unspelled (h.spelling "maxScore" (by decide))]
    exact htop
  have hmetrics : asMaps (kvs.lookup "metrics") =
      some (objects (items ((Value.dict kvs).field "metrics"))) := asMaps_list h.metrics
  have hmetric := mapM_reads (f := ScorecardMetric.fromJson) (g := metricOf)
    fun m (hm : m ∈ objects (items ((Value.dict kvs).field "metrics"))) =>
      metric_read (h.metric _ (mem_objects hm))
  have hbins : asMaps (kvs.lookup "bins") =
      some (objects (items ((Value.dict kvs).field "bins"))) := asMaps_list h.bins
  have hbin := mapM_reads (f := ScoreFactor.fromJson) (g := factorOf)
    fun f (hf : f ∈ objects (items ((Value.dict kvs).field "bins"))) =>
      factor_read (h.factor _ (mem_objects hf))
  unfold Scorecard.fromJson cardOf
  simp_all

/-! ### Scores and metrics -/

section Formulas
variable {E : FormulaEvaluator} {log : F64 → F64} (woeRaw : Scorecard → F64 → ℤ)

variable {c : FormulaContext} {kvs : Dict} {ms : List MetricResult} {ns : List MetricEntry}

variable {doc : Value} {key d : String} {score : ℤ} {ms' : List MetricResult}

theorem formula_text {r : Option Value} (htext : TextOrNull (doc.field key))
    (h : serverFormula E (getOr doc key (.str d)) c = .ok r) :
    E ((textOf (doc.field key)).getD d) (serverNames c) = .ok r := by
  unfold getOr at h
  rcases htext with (hnull | hnull) | ⟨s, htext⟩
  · rw [hnull] at h ⊢
    exact h
  · rw [hnull] at h
    cases h
  · rw [htext] at h ⊢
    exact h

theorem method_alike {v : Option Value} {m : String} (h : TextOrNull v) (hm : m ≠ "points") :
    v.getD (.str "points") = .str m ↔ (textOf v).getD "points" = m := by
  rcases h with (rfl | rfl) | ⟨s, rfl⟩
  · exact ⟨fun h => Value.str.inj h, fun h => congrArg Value.str h⟩
  · constructor
    · intro h
      cases h
    · intro h
      exact absurd h.symm hm
  · exact ⟨fun h => Value.str.inj h, fun h => congrArg Value.str h⟩

theorem not_woe {v : Option Value} (h : v ≠ some (.str "woe")) :
    v.getD (.str "points") ≠ .str "woe" := by
  cases v with
  | none => exact fun h => absurd (Value.str.inj h) (by decide)
  | some v => exact fun hv => h (congrArg some hv)

theorem formulaScore_raw {fs : Formulas} {card : Value}
    (h : formulaScore py fs card c = .ok score) :
    ∃ result, fs.formula (getOr card "formula" (.str "base_score + total_points")) c = .ok result ∧
      score = clampScore c.maxScore (formulaRaw c.baseScore result) := by
  obtain ⟨result, hresult, h⟩ := bind_eq_ok.1 h
  refine ⟨result, hresult, ?_⟩
  cases result with
  | none => cases h
  | some v =>
    cases v with
    | inf neg => cases h
    | _ =>
      cases h
      rfl

theorem score_alike (hstored : StoredCard (.dict kvs))
    (hbase : c.baseScore = (cardOf kvs).baseScore)
    (h : scoreOver py ⟨log, serverFormula E⟩ (.dict kvs) c = .ok score) :
    ∃ raw, rawScore E woeRaw (cardOf kvs) c.totalPoints c.totalWoeScore (serverNames c) = .ok raw ∧
      score = clampScore c.maxScore raw := by
  have hmethod : ∀ m, m ≠ "points" →
      (getOr (.dict kvs) "scoring_method" (.str "points") = .str m ↔
        (cardOf kvs).scoringMethod = m) := fun m hm => method_alike hstored.method hm
  have hwoe : getOr (.dict kvs) "scoring_method" (.str "points") ≠ .str "woe" :=
    not_woe hstored.notWoe
  have hwoe' : (cardOf kvs).scoringMethod ≠ "woe" := fun h => hwoe ((hmethod _ (by decide)).2 h)
  unfold scoreOver at h
  unfold rawScore
  rw [if_neg hwoe] at h
  rw [if_neg hwoe']
  by_cases hformula : (cardOf kvs).scoringMethod = "formula"
  · rw [if_pos ((hmethod _ (by decide)).2 hformula)] at h
    rw [if_pos hformula]
    obtain ⟨result, hresult, hscore⟩ := formulaScore_raw h
    have hvalue : E ((cardOf kvs).formula.getD "base_score + total_points") (serverNames c) =
        .ok result := formula_text hstored.formula hresult
    refine ⟨_, ?_, hscore⟩
    rw [hvalue, hbase]
    rfl
  · simp_all

/-- What the two entries of a metric have in common. -/
def SameMetric (m : MetricResult) (n : MetricEntry) : Prop :=
  m.name = .str n.name ∧ m.value = n.value

theorem addMetric_alike {m : MetricResult}
    {n : MetricEntry} (h : List.Forall₂ SameMetric ms ns) (hm : SameMetric m n) :
    List.Forall₂ SameMetric (addMetric ms m) (setMetric ns n) := by
  induction h with
  | nil => exact .cons hm .nil
  | @cons m' n' ms ns hm' hrest ih =>
    unfold addMetric setMetric
    have heq : pyEq m'.name m.name = decide (n'.name = n.name) := by
      rw [hm'.1, hm.1]
      simp only [pyEq, beq_eq_decide]
    rw [heq]
    by_cases hname : n'.name = n.name
    · rw [if_pos (decide_eq_true hname), if_pos hname]
      exact .cons ⟨hm'.1.trans (congrArg Value.str hname), hm.2⟩ hrest
    simp_all

theorem name_text (h : doc.field key = none ∨ ∃ s, doc.field key = some (.str s)) :
    getOr doc key (.str d) = .str ((textOf (doc.field key)).getD d) := by
  unfold getOr
  rcases h with h | ⟨s, h⟩
  · rw [h]
    rfl
  · rw [h]
    rfl

theorem metric_alike (hstored : StoredMetric (.dict kvs)) (hms : List.Forall₂ SameMetric ms ns)
    (h : RuleMind.evaluateMetric ⟨log, serverFormula E⟩ c ms (.dict kvs) = .ok ms') :
    ∃ ns', evaluateMetric E (serverNames c) ns (metricOf kvs) = .ok ns' ∧
      List.Forall₂ SameMetric ms' ns' := by
  obtain ⟨value, hvalue, h⟩ := bind_eq_ok.1 h
  have hformula : E (metricOf kvs).formula (serverNames c) = .ok value :=
    formula_text hstored.formula hvalue
  refine ⟨_, by rw [evaluateMetric, hformula]; rfl, ?_⟩
  rw [name_text hstored.name] at h
  cases h
  exact addMetric_alike hms ⟨rfl, rfl⟩

theorem metrics_alike {metrics : List Value} (hstored : ∀ m ∈ metrics, StoredMetric m)
    (hms : List.Forall₂ SameMetric ms ns)
    (h : metrics.foldlM (RuleMind.evaluateMetric ⟨log, serverFormula E⟩ c) ms = .ok ms') :
    ∃ ns', ((objects metrics).map metricOf).foldlM (evaluateMetric E (serverNames c)) ns = .ok ns' ∧
      List.Forall₂ SameMetric ms' ns' := by
  induction metrics generalizing ms ns with
  | nil =>
    cases h
    exact ⟨ns, rfl, hms⟩
  | cons metric metrics ih =>
    rw [List.foldlM_cons] at h
    obtain ⟨ms₁, hms₁, h⟩ := bind_eq_ok.1 h
    cases hdict : metric.asDict with
    | none =>
      rw [RuleMind.evaluateMetric, hdict] at hms₁
      cases hms₁
    | some kvs =>
      rw [show objects (metric :: metrics) = kvs :: objects metrics from
        List.filterMap_cons_some hdict]
      rw [asDict_eq hdict] at hms₁ hstored
      obtain ⟨ns₁, hns₁, hsame⟩ := metric_alike (hstored _ List.mem_cons_self) hms hms₁
      obtain ⟨ns', hns', hsame'⟩ := ih (fun m hm => hstored m (List.mem_cons_of_mem _ hm)) hsame h
      refine ⟨ns', ?_, hsame'⟩
      rw [List.map_cons, List.foldlM_cons, hns₁]
      exact hns'

/-! ### The agreement -/

/-- The same score, the same weighted points of each factor and the same values of the metrics. -/
structure SameScores (res : ScorecardResult) (out : DeviceResult) : Prop where
  score : out.score = res.score
  weightedPoints : out.breakdown.map BreakdownEntry.weightedPoints =
    res.breakdown.map FactorResult.weightedPoints
  metrics : out.metrics.map (fun m => (Value.str m.name, m.value)) =
    res.metrics.map fun m => (m.name, m.value)

theorem evaluate_stored {vars : Dict} {res : ScorecardResult} (hstored : StoredCard (.dict kvs))
    (hread : ReadAlike py (variableIds kvs) vars)
    (h : evaluateScorecardOver (exact py) py ⟨log, serverFormula E⟩ vars (.dict kvs) = .ok res) :
    ∃ out, evaluate E woeRaw (cardOf kvs) vars = .ok out ∧ SameScores res out := by
  obtain ⟨base, hbase, h⟩ := bind_eq_ok.1 h
  obtain ⟨top, htop, h⟩ := bind_eq_ok.1 h
  obtain ⟨bins, hbins, h⟩ := bind_eq_ok.1 h
  obtain ⟨breakdown, hbreakdown, h⟩ := bind_eq_ok.1 h
  obtain ⟨score, hscore, h⟩ := bind_eq_ok.1 h
  obtain ⟨metrics, hmetrics, h⟩ := bind_eq_ok.1 h
  obtain ⟨ms, hms, h⟩ := bind_eq_ok.1 h
  cases h
  have hbase' : base = (cardOf kvs).baseScore :=
    Except.ok.inj (hbase.symm.trans (pyInt_number hstored.baseScore 300))
  have htop' : top = (cardOf kvs).maxScore :=
    Except.ok.inj (htop.symm.trans (pyInt_number hstored.maxScore 900))
  subst hbase' htop'
  rw [iterate_items hstored.bins hbins] at hbreakdown
  rw [iterate_orElse hstored.metrics] at hmetrics
  cases hmetrics
  have hsame := breakdown_alike hstored.factor hread
    (fun f hf s hs => List.mem_filterMap.2 ⟨f, hf, hs⟩) hbreakdown
  obtain ⟨raw, hraw, rfl⟩ := score_alike woeRaw hstored rfl hscore
  obtain ⟨ns, hns, hsame'⟩ := metrics_alike hstored.metric .nil hms
  have hpoints : (formulaContext (exact py) (cardOf kvs).baseScore (cardOf kvs).maxScore vars
    breakdown).totalPoints = _ := points_total hsame
  have hwoe : (formulaContext (exact py) (cardOf kvs).baseScore (cardOf kvs).maxScore vars
    breakdown).totalWoeScore = _ := woe_total hsame
  rw [scoreNames_alike hsame, hpoints, hwoe] at hraw
  rw [metricNames_alike hsame, iv_total hsame] at hns
  refine ⟨_, bind_eq_ok.2 ⟨raw, hraw, bind_eq_ok.2 ⟨ns, hns, rfl⟩⟩, rfl, ?_, ?_⟩
  · exact (map_alike hsame fun _ _ hab => hab.weightedPoints).symm
  · exact (map_alike hsame' fun _ _ hab => by rw [hab.1, hab.2]).symm

end Formulas

/-! ### A card that tells numbers apart -/

def pointRange (q : ℚ) : Dict := [("min", .float q), ("max", .float q), ("points", .int 1)]

def pointFactor (id : String) (q : ℚ) : Dict :=
  [("variable_id", .str id), ("ranges", .list [.dict (pointRange q)])]

def pointCard (id : String) (q : ℚ) : Dict := [("bins", .list [.dict (pointFactor id q)])]

theorem stored_pointRange (q : ℚ) : StoredRange (.dict (pointRange q)) where
  min := Or.inl (Or.inr (Or.inr ⟨q, rfl⟩))
  max := Or.inl (Or.inr (Or.inr ⟨q, rfl⟩))
  points := Or.inr (Or.inl ⟨1, rfl⟩)

theorem stored_pointFactor (id : String) (q : ℚ) : StoredFactor (.dict (pointFactor id q)) where
  variableId := Or.inr ⟨id, rfl⟩
  weight := Or.inl rfl
  coefficient := Or.inl rfl
  ranges := Or.inr ⟨_, rfl⟩
  range := by
    intro r hr
    rw [List.mem_singleton.1 hr]
    exact stored_pointRange q
  woeValues := Or.inl (Or.inl rfl)
  woeRange := by
    intro r hr
    cases hr
  spelling := by
    intro key hkey
    simp only [List.mem_cons, List.not_mem_nil, or_false] at hkey
    rcases hkey with rfl | rfl
    · exact Or.inl rfl
    · exact Or.inl rfl

theorem stored_pointCard (id : String) (q : ℚ) : StoredCard (.dict (pointCard id q)) where
  id := Or.inl (Or.inl rfl)
  name := Or.inl (Or.inl rfl)
  baseScore := Or.inl rfl
  maxScore := Or.inl rfl
  method := Or.inl (Or.inl rfl)
  notWoe := nofun
  formula := Or.inl (Or.inl rfl)
  bins := Or.inr ⟨_, rfl⟩
  factor := by
    intro f hf
    rw [List.mem_singleton.1 hf]
    exact stored_pointFactor id q
  metrics := Or.inl (Or.inl rfl)
  metric := by
    intro m hm
    cases hm
  spelling := by
    intro key hkey
    simp only [List.mem_cons, List.not_mem_nil, or_false] at hkey
    rcases hkey with rfl | rfl | rfl
    · exact Or.inl rfl
    · exact Or.inl rfl
    · exact Or.inl rfl

theorem inBounds_point (q : ℚ) (x : Option ℚ) :
    inBounds (.dict (pointRange q)) x = decide (x = some q) := by
  cases x with
  | none => rfl
  | some x =>
    show (decide (q ≤ x) && decide (x ≤ q)) = _
    grind

theorem truncRat_once (n : ℤ) : truncRat ((n : ℚ) * 1) = n := by
  rw [mul_one, truncRat, Rat.num_intCast, Rat.den_intCast]
  exact Int.tdiv_one n

section Point
variable {vars : Dict} {id : String} {v : Value} {q : ℚ}

theorem server_point (py : PyText) (fs : Formulas) (hv : vars.lookup id = some v) (q : ℚ) :
    ∃ res, evaluateScorecardOver (exact py) py fs vars (.dict (pointCard id q)) = .ok res ∧
      res.breakdown.map FactorResult.weightedPoints =
        [if serverNumber py v = some q then 1 else 0] := by
  have hin : inRangeOver (exact py) v (.dict (pointRange q)) =
      .ok (decide (serverNumber py v = some q)) := by
    rw [inRange_bounds rfl (stored_pointRange q).min (stored_pointRange q).max, inBounds_point]
  have hactive : activeRangeOver (exact py) v [.dict (pointRange q)] =
      .ok (if serverNumber py v = some q then some (.dict (pointRange q)) else none) := by
    unfold activeRangeOver
    rw [hin]
    by_cases h : serverNumber py v = some q
    · rw [decide_eq_true h, if_pos h]
      rfl
    · rw [decide_eq_false h, if_neg h]
      rfl
  have hfactor : ∃ fr, evaluateFactorOver (exact py) py vars (.dict (pointFactor id q)) = .ok fr ∧
      fr.weightedPoints = if serverNumber py v = some q then 1 else 0 := by
    by_cases h : serverNumber py v = some q
    · rw [if_pos h] at hactive ⊢
      exact ⟨_, bind_eq_ok.2 ⟨some v, congrArg Except.ok hv, bind_eq_ok.2 ⟨_, rfl, bind_eq_ok.2
        ⟨_, rfl, bind_eq_ok.2 ⟨_, rfl, bind_eq_ok.2 ⟨_, hactive, rfl⟩⟩⟩⟩⟩, truncRat_once 1⟩
    · rw [if_neg h] at hactive ⊢
      exact ⟨_, bind_eq_ok.2 ⟨some v, congrArg Except.ok hv, bind_eq_ok.2 ⟨_, rfl, bind_eq_ok.2
        ⟨_, rfl, bind_eq_ok.2 ⟨_, rfl, bind_eq_ok.2 ⟨_, hactive, rfl⟩⟩⟩⟩⟩, truncRat_once 0⟩
  obtain ⟨fr, hfr, hpoints⟩ := hfactor
  have hbins : [Value.dict (pointFactor id q)].mapM (evaluateFactorOver (exact py) py vars) =
      .ok [fr] := mapM_eq_ok.2 (.cons hfr .nil)
  have hother : ∀ m, m ≠ "points" →
      getOr (.dict (pointCard id q)) "scoring_method" (.str "points") ≠ .str m :=
    fun m hm h => hm (Value.str.inj h).symm
  have hscore : ∀ c, scoreOver py fs (.dict (pointCard id q)) c =
      .ok (clampScore c.maxScore (c.baseScore + c.totalPoints)) := by
    intro c
    unfold scoreOver
    rw [if_neg (hother _ (by decide)), if_neg (hother _ (by decide))]
  exact ⟨_, bind_eq_ok.2 ⟨300, rfl, bind_eq_ok.2 ⟨900, rfl, bind_eq_ok.2 ⟨_, rfl, bind_eq_ok.2
    ⟨_, hbins, bind_eq_ok.2 ⟨_, hscore _, rfl⟩⟩⟩⟩⟩, congrArg (fun n => [n]) hpoints⟩

theorem device_point {E : FormulaEvaluator} {woeRaw : Scorecard → F64 → ℤ} {out : DeviceResult}
    (hv : vars.lookup id = some v)
    (h : evaluate E woeRaw (cardOf (pointCard id q)) vars = .ok out) :
    out.breakdown.map BreakdownEntry.weightedPoints =
      [if deviceNumber v = some q then 1 else 0] := by
  obtain ⟨raw, hraw, h⟩ := bind_eq_ok.1 h
  obtain ⟨ns, hns, h⟩ := bind_eq_ok.1 h
  cases h
  have hactive := device_found rangeOf
    (fun range => covers range.min range.max range.matchable)
    (fun r (hr : r ∈ [pointRange q]) x => by
      rw [List.mem_singleton.1 hr]
      exact covers_bounds (stored_pointRange q).min (stored_pointRange q).max x) v
  rw [List.find?_singleton, inBounds_point] at hactive
  have hpoints : (evaluateFactor vars (factorOf (pointFactor id q))).weightedPoints =
      truncRat ((((((pythonFloat v).bind fun x => ([pointRange q].map rangeOf).find? fun range =>
        covers range.min range.max range.matchable x).map ScoreRange.points).getD 0 : ℤ) : ℚ) *
          1) := by
    rw [show v = (vars.lookup id).getD (.int 0) by rw [hv]; rfl]
    rfl
  refine congrArg (fun n => [n]) (hpoints.trans ?_)
  rw [hactive, truncRat_once]
  by_cases h : deviceNumber v = some q
  · rw [if_pos h, decide_eq_true h]
    rfl
  · rw [if_neg h, decide_eq_false h]
    rfl

end Point

/-- All stored cards over some variables score alike. -/
def ScoresAlike (py : PyText) (ids : List String) (vars : Dict) : Prop :=
  ∀ (log : F64 → F64) (E : FormulaEvaluator) (woeRaw : Scorecard → F64 → ℤ) (kvs : Dict)
    (res : ScorecardResult), StoredCard (.dict kvs) → (∀ id ∈ variableIds kvs, id ∈ ids) →
    evaluateScorecardOver (exact py) py ⟨log, serverFormula E⟩ vars (.dict kvs) = .ok res →
    ∃ card out, Scorecard.fromJson kvs = some card ∧ evaluate E woeRaw card vars = .ok out ∧
      SameScores res out

theorem same_hit {p q : Prop} [Decidable p] [Decidable q]
    (h : (if p then (1 : ℤ) else 0) = if q then 1 else 0) : p ↔ q := by grind

theorem readAlike_of_scores (h : ScoresAlike py ids vars) : ReadAlike py ids vars := by
  intro id hid v hv
  have hpoint : ∀ q, serverNumber py v = some q ↔ deviceNumber v = some q := by
    intro q
    obtain ⟨res, hres, hserver⟩ := server_point py
      ⟨fun x => x, serverFormula fun _ _ => .ok none⟩ hv q
    obtain ⟨card, out, hcard, hout, hsame⟩ := h _ (fun _ _ => .ok none) (fun _ _ => 0) _ res
      (stored_pointCard id q) (fun s hs => List.mem_singleton.1 hs ▸ hid) hres
    rw [card_read (stored_pointCard id q)] at hcard
    cases hcard
    have hpoints := hsame.weightedPoints
    rw [hserver, device_point hv hout] at hpoints
    exact (same_hit (List.head_eq_of_cons_eq hpoints)).symm
  cases hserver : serverNumber py v with
  | some q => exact ((hpoint q).1 hserver).symm
  | none =>
    cases hdevice : deviceNumber v with
    | none => rfl
    | some q => rw [(hpoint q).2 hdevice] at hserver; cases hserver

/-- The device scores the cards over some variables like the server exactly where these read
alike. -/
theorem device_scores_iff (py : PyText) (ids : List String) (vars : Dict) :
    ScoresAlike py ids vars ↔ ReadAlike py ids vars := by
  constructor
  · exact readAlike_of_scores
  · intro hread log E woeRaw kvs res hstored hids h
    obtain ⟨out, hout, hsame⟩ := evaluate_stored woeRaw hstored
      (fun id hid => hread id (hids id hid)) h
    exact ⟨cardOf kvs, out, card_read hstored, hout, hsame⟩

end Matching

def incomeCard : Dict :=
  [("bins", .list [.dict [("variable_id", .str "income"), ("ranges", .list [.dict
    [("min", .int 0), ("max", .int 5000), ("points", .int 50)]])]])]

/-- `float` takes underscores between digits, and `double.tryParse` does not. -/
theorem underscored_income :
    ¬ ScoresAlike asciiText ["income"] [("income", .str "1_000")] ∧
      (evaluateScorecardOver (exact asciiText) asciiText ⟨fun x => x, fun _ _ => .ok none⟩
        [("income", .str "1_000")] (.dict incomeCard)).toOption.map ScorecardResult.score =
          some 350 ∧
      ((Scorecard.fromJson incomeCard).bind fun card => (evaluate (fun _ _ => .ok none)
        (fun _ _ => 0) card [("income", .str "1_000")]).toOption.map DeviceResult.score) =
          some 300 := by
  refine ⟨?_, by decide +kernel, by decide +kernel⟩
  intro h
  have hread := readAlike_of_scores h "income" (List.mem_singleton.2 rfl) (.str "1_000") rfl
  exact absurd hread (by decide +kernel)

end RuleMind.DartScore
