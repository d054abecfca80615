/-
  The same analysis in the editor: `rule-engine/src/mece.ts`, and where its verdict is that of
  the promotion gate.

  A definition of `Mece` serves for both files where they read alike.  Descriptions and the
  warnings about the cap are left out of the diagnostics.
-/
import RuleMind.JsText
import RuleMind.MutualExclusion

namespace RuleMind.Mece

open Text (F64 roundF64)

namespace Editor

/-! ### Conditions -/

def operatorToInterval (op : Operator) (value : F64) (value2 : Option F64) : Interval Bound :=
  match F64.order value, value2.map F64.order with
  | none, _ | _, some none => emptyInterval
  | some v, w =>
    match op with
    | .eq => ⟨v, v, true, true⟩
    | .gt => ⟨v, ⊤, false, false⟩
    | .ge => ⟨v, ⊤, true, false⟩
    | .lt => ⟨⊥, v, false, false⟩
    | .le => ⟨⊥, v, false, true⟩
    | .between =>
      -- `value2 ?? value`
      let w := w.join.getD v
      ⟨min v w, max v w, true, true⟩
    | _ => .full

section Conditions
variable (js : Js)

/-- `config[key] ?? other`. -/
def given (config : Dict) (key : String) (other : Value) : Value :=
  match config.lookup key with
  | none | some .null => other
  | some v => v

/-- `config.operator ?? "=="`. -/
def operatorOf (config : Dict) : Operator :=
  match given config "operator" (.str "==") with
  | .str s => Operator.ofText s
  | _ => .other

/-- `String(config.fieldType ?? "string").toLowerCase()`. -/
def fieldTypeOf (config : Dict) : FieldType :=
  let s := lower (js.text (given config "fieldType" (.str "string")))
  if s = "number" then .number else if s = "date" then .date
  else if s = "boolean" then .boolean else .other

def parseDateValue (v : Value) : F64 :=
  if isNumber v then js.number v
  else js.readTime (js.text (if v.isNull then .str "" else v))

def numberConstraint (name : String) (type : FieldType) (config : Dict) : FieldConstraint :=
  let value := js.number (given config "value" (.int 0))
  let value2 := (config.lookup "value2").map js.number
  if operatorOf config = .ne then numericConstraint name type .full (F64.order value).toList
  else numericConstraint name type (operatorToInterval (operatorOf config) value value2) []

def dateConstraint (name : String) (config : Dict) : FieldConstraint :=
  let value := parseDateValue js ((config.lookup "value").getD .null)
  let value2 := (config.lookup "value2").map (parseDateValue js)
  if operatorOf config = .ne then numericConstraint name .date .full (F64.order value).toList
  else if value = .nan then { numericConstraint name .date .full [] with isOpaque := true }
  else numericConstraint name .date (operatorToInterval (operatorOf config) value value2) []

/-- `String(config.value ?? "true").toLowerCase() === "true"`. -/
def boolThreshold (config : Dict) : Bool :=
  lower (js.text (given config "value" (.str "true"))) == "true"

def booleanConstraint (name : String) (config : Dict) : FieldConstraint :=
  let values := match operatorOf config with
    | .eq => [boolName (boolThreshold js config)]
    | .ne => [boolName (!boolThreshold js config)]
    | .exists => ["true", "false"]
    | .notExists => []
    | _ => ["true", "false"]
  setConstraint name .boolean ⟨some values, []⟩

/-- `String(config.value ?? "").split(",").map((s) => s.trim()).filter(Boolean)`. -/
def optionSet (config : Dict) : List String :=
  (((splitComma (js.text (given config "value" (.str ""))).toList).map Js.trim).filter
    (· ≠ [])).map String.ofList

def textConstraint (name : String) (config : Dict) : FieldConstraint :=
  let unknown : FieldConstraint := { setConstraint name .other ⟨none, []⟩ with isOpaque := true }
  match operatorOf config, config.lookup "value" with
  | .isIn, _ => setConstraint name .other ⟨some (optionSet js config), []⟩
  | .notIn, _ => setConstraint name .other ⟨none, optionSet js config⟩
  | .eq, some value => setConstraint name .other ⟨some [js.text value], []⟩
  | .ne, some value => setConstraint name .other ⟨none, [js.text value]⟩
  | .exists, _ => setConstraint name .other ⟨none, []⟩
  | .notExists, _ => setConstraint name .other ⟨some [], []⟩
  | _, _ => unknown

/-- `extractConditionConstraint`; the name of a field is a text. -/
def extractConditionConstraint (score : Bool) (config : Dict) : Option FieldConstraint :=
  match config.lookup "field" with
  | some (.str name) =>
    if name = "" then none
    else
      let type := fieldTypeOf js config
      if type = .number || score then some (numberConstraint js name type config)
      else if type = .date then some (dateConstraint js name config)
      else if type = .boolean then some (booleanConstraint js name config)
      else some (textConstraint js name config)
  | _ => none

end Conditions

/-! ### Branches -/

def invertInterval (iv : Interval Bound) : List (Interval Bound) :=
  if iv.isEmpty then [.full]
  else
    (if ⊥ < iv.lower || (iv.lower = ⊥ && iv.lowerInc) then
      if ⊥ < iv.lower then [⟨⊥, iv.lower, false, !iv.lowerInc⟩] else []
    else []) ++
    (if iv.upper < ⊤ || (iv.upper = ⊤ && iv.upperInc) then
      if iv.upper < ⊤ then [⟨iv.upper, ⊤, !iv.upperInc, false⟩] else []
    else [])

/-- The branches of a single constraint, inverted; the rest of it is kept. -/
def invertSingle (c : FieldConstraint) : List Branch :=
  if c.isOpaque then [[{ c with isOpaque := true }]]
  else match c.intervals, c.valueSet with
    | iv :: _, _ =>
      if c.excludedPoints = [] then (invertInterval iv).map fun iv => [{ c with intervals := [iv] }]
      else c.excludedPoints.map fun p =>
        [{ c with intervals := [⟨p, p, true, true⟩], excludedPoints := [] }]
    | [], some s => [[{ c with valueSet := some s.invert }]]
    | [], none => []

def invertBranches (branches : List Branch) : List Branch :=
  orUnconstrained (branches.flatMap fun branch =>
    match branch with
    | [] => []
    | [c] => invertSingle c
    | _ => branch.flatMap fun c => orUnconstrained (invertSingle c))

/-- `expandAndBranches`, from the combinations so far on. -/
def expandAndBranches (walk : String → List Branch) : List Branch → List String → List Branch
  | result, [] => result
  | result, child :: children =>
    if (walk child).isEmpty then expandAndBranches walk result children
    else if (crossCapped result (walk child)).isEmpty then [[]]
    else expandAndBranches walk (crossCapped result (walk child)) children

/-- `expandOrBranches`, from the alternatives so far on. -/
def expandOrBranches (walk : String → List Branch) : List Branch → List String → List Branch
  | branches, [] => (orUnconstrained branches).take BRANCH_CAP
  | branches, child :: children =>
    if BRANCH_CAP ≤ branches.length then (orUnconstrained branches).take BRANCH_CAP
    else expandOrBranches walk (branches ++ walk child) children

/-- `node.config?.groupOp ?? "AND"`. -/
def groupType (config : Value) : NodeType :=
  match config with
  | .dict kvs =>
    match given kvs "groupOp" (.str "AND") with
    | .str s => if s = "AND" then .and else if s = "OR" then .or else .other
    | _ => .other
  | _ => .and

def role (node : Node) : NodeType := if node.type = .group then groupType node.config else node.type

/-- `node.config ?? {}`. -/
def configOf (node : Node) : Dict :=
  match node.config with
  | .dict kvs => kvs
  | _ => []

section Walk
variable (js : Js) (d : Definition)

/-- What `walk` makes of a node, from the branches of its children. -/
def expandNode (node : Node) (walk : String → List Branch) (childIds : List String) : List Branch :=
  match role node with
  | .condition | .score =>
    match extractConditionConstraint js (node.type = .score) (configOf node) with
    | none => [[]]
    | some c =>
      let childBranches := if childIds.isEmpty then [[]] else childIds.flatMap walk
      if childBranches.isEmpty then [[c]] else childBranches.map (c :: ·)
  | .and => if childIds.isEmpty then [[]] else expandAndBranches walk [[]] childIds
  | .or => if childIds.isEmpty then [[]] else expandOrBranches walk [] childIds
  | .not =>
    match childIds with
    | [] => [[]]
    | child :: _ => invertBranches (walk child)
  | .trigger => if childIds.isEmpty then [[]] else childIds.flatMap walk
  | _ => [[]]

/-- `walk`, with as many levels as `Mece.walk`. -/
def walk : ℕ → List String → String → List Branch
  | 0, _, _ => [[]]
  | f + 1, visiting, nid =>
    if nid ∈ visiting then [[]]
    else match d.node nid with
      | none => [[]]
      | some node => expandNode js node (walk f (nid :: visiting)) (d.children nid)

def extractRuleConstraintSpace : List Branch :=
  if d.nodes.isEmpty then [[]]
  else if d.roots.isEmpty then [[]]
  else (orUnconstrained (d.roots.flatMap (walk js d (d.nodes.length + 1) []))).take BRANCH_CAP

end Walk

/-! ### Diagnostics -/

/-- What `checkRulePairOverlap` says of two branches that overlap; it never lacks words. -/
def overlapDiagnostic (ra rb : RuleSpace) (ba bb : Branch) : Option Diagnostic :=
  let shared := sharedFields (normalizeBranch ba) (normalizeBranch bb)
  let overlapping := shared.filter fun ab => constraintsOverlap ab.1 ab.2
  let hasOpaqueOverlap := overlapping.any fun ab => ab.1.isOpaque || ab.2.isOpaque
  if shared.isEmpty then some ⟨.overlap, .error, [], [ra.id, rb.id]⟩
  else if !overlapping.isEmpty then
    some ⟨.overlap, if hasOpaqueOverlap then .warning else .error,
      overlapping.map (·.1.fieldName), [ra.id, rb.id]⟩
  else none

def checkRulePairOverlap (ra rb : RuleSpace) : Option Diagnostic :=
  ((ra.branches.product rb.branches).find? fun b => branchesOverlap b.1 b.2).bind fun b =>
    overlapDiagnostic ra rb b.1 b.2

def pairDiagnostics : List RuleSpace → List Diagnostic
  | [] => []
  | r :: rs => rs.filterMap (checkRulePairOverlap r) ++ pairDiagnostics rs

/-- The values a boolean constraint counts for; of an empty set, none. -/
def booleanValues (s : ValueSet String) : List String := s.included.getD ["true", "false"]

def coverageDiagnostics (cs : Branch) : List Diagnostic :=
  (fieldsWith isNumeric cs).flatMap (fun name =>
    checkNumericExhaustiveness name (collect (·.intervals) cs name)) ++
  (fieldsWith isBoolean cs).flatMap (fun name =>
    checkBooleanExhaustiveness name
      (collect (fun c => if isBoolean c then c.valueSet.toList.flatMap booleanValues else [])
        cs name)) ++
  (fieldsWith isCategorical cs).flatMap (categoricalGap cs)

def pairReport (spaces : List RuleSpace) : Report :=
  let cs := spaces.flatMap fun space => space.branches.flatMap normalizeBranch
  let diagnostics := pairDiagnostics spaces ++ coverageDiagnostics cs
  { diagnostics
    analyzedFields := fieldsWith (fun _ => true) cs
    ruleCount := spaces.length
    hasOpaqueConstraints := cs.any (·.isOpaque)
    isMutuallyExclusive := noErrors .overlap diagnostics
    isCollectivelyExhaustive := noErrors .gap diagnostics }

/-- The graph of a rule; the shorthand is not read. -/
def graph (r : Rule) : Definition := r.definition.getD ⟨[], [], []⟩

def ruleSpace (js : Js) (r : Rule) : RuleSpace := ⟨r.id, extractRuleConstraintSpace js (graph r)⟩

def analyzeMECE (js : Js) (rules : List Rule) : Report :=
  match rules with
  | [] => ⟨[⟨.gap, .error, [], []⟩], [], 0, false, true, false⟩
  | [r] =>
    let branches := extractRuleConstraintSpace js (graph r)
    let names := fieldsWith (fun _ => true) branches.flatten
    ⟨[⟨.gap, .info, names, [r.id]⟩], names, 1, branches.flatten.any (·.isOpaque), true, false⟩
  | rules => pairReport (rules.map (ruleSpace js))

end Editor

/-! ### Conditions of a declared type -/

open Editor

/-- The threshold of a number: none, or a number that a double holds. -/
def NumberThreshold (v : Option Value) : Prop :=
  ∀ w, v = some w → (∃ n, w = .int n ∧ (roundF64 n).isSome) ∨ ∃ q, w = .float q

def BoolThreshold (v : Option Value) : Prop := ∀ w, v = some w → ∃ b, w = .bool b

/-- A condition that declares a type, with thresholds of the type. -/
structure Declared (config : Dict) : Prop where
  field : ∀ v, config.lookup "field" = some v → v = .null ∨ ∃ s, v = .str s
  thresholds :
    (config.lookup "fieldType" = some (.str "number") ∧
      NumberThreshold (config.lookup "value") ∧ NumberThreshold (config.lookup "value2")) ∨
    (config.lookup "fieldType" = some (.str "boolean") ∧
      BoolThreshold (config.lookup "value") ∧ BoolThreshold (config.lookup "value2"))

/-- The operator is not null, and no range that is read as one of numbers ends in zero, unless it
    starts there. -/
structure Plain (js : Js) (score : Bool) (config : Dict) : Prop where
  operator : config.lookup "operator" ≠ some .null
  bound : score = true ∨ config.lookup "fieldType" = some (.str "number") →
    Editor.operatorOf config = .between →
    (config.lookup "value2").map js.number = some (.finite 0) →
    js.number (given config "value" (.int 0)) = .finite 0

section Conditions
variable {py : PyText} {js : Js}

theorem threshold_number {v : Value} (h : NumberThreshold (some v) ∨ BoolThreshold (some v)) :
    ∃ q, safeFloat py v = .ok (.finite q) ∧ js.number v = .finite q := by
  rcases h with h | h
  · rcases h v rfl with ⟨n, rfl, hn⟩ | ⟨q, rfl⟩
    · obtain ⟨q, hq⟩ := Option.isSome_iff_exists.1 hn
      exact ⟨q, by simp [safeFloat, pyFloatOf, hq], by simp [Js.number, Js.double, hq]⟩
    · exact ⟨q, rfl, rfl⟩
  · obtain ⟨b, rfl⟩ := h v rfl
    exact ⟨_, rfl, rfl⟩

variable {config : Dict}

theorem given_ne_null {key : String} {other : Value} (h : config.lookup key ≠ some .null) :
    given config key other = (config.lookup key).getD other := by grind [given]

theorem threshold_ne_null {v : Option Value} (h : NumberThreshold v ∨ BoolThreshold v) :
    v ≠ some .null := by
  rintro rfl
  rcases h with h | h
  · rcases h _ rfl with ⟨n, ⟨⟩, -⟩ | ⟨q, ⟨⟩⟩
  · obtain ⟨b, ⟨⟩⟩ := h _ rfl

theorem first_threshold {config : Dict}
    (h : NumberThreshold (config.lookup "value") ∨ BoolThreshold (config.lookup "value")) :
    ∃ q, safeFloat py ((config.lookup "value").getD (.int 0)) = .ok (.finite q) ∧
      js.number (given config "value" (.int 0)) = .finite q := by
  rw [given_ne_null (threshold_ne_null h)]
  cases hv : config.lookup "value" with
  | none => simp [roundF64, safeFloat, pyFloatOf, Js.number, Js.double]
  | some v =>
    rw [hv] at h
    exact threshold_number h

theorem second_threshold {config : Dict}
    (h : NumberThreshold (config.lookup "value2") ∨ BoolThreshold (config.lookup "value2")) :
    ∃ w : Option ℚ, upperOf py config = .ok (w.map .finite) ∧
      (config.lookup "value2").map js.number = w.map .finite := by
  unfold upperOf
  cases hv : config.lookup "value2" with
  | none => exact ⟨none, rfl, rfl⟩
  | some v =>
    rw [hv] at h
    obtain ⟨q, hq, hjs⟩ := @threshold_number py js v h
    refine ⟨some q, ?_, by simp [hjs]⟩
    cases v with
    | null => exact absurd rfl (threshold_ne_null h)
    | _ => simp only [hq]; rfl

theorem operatorOf_agrees (h : config.lookup "operator" ≠ some .null) :
    Mece.operatorOf config = Editor.operatorOf config := by
  unfold Mece.operatorOf Editor.operatorOf
  rw [given_ne_null h]
  cases config.lookup "operator" with
  | none => rfl
  | some v => cases v <;> rfl

theorem operatorToInterval_agrees {op : Operator} {p : ℚ} {w : Option ℚ}
    (h : op = .between → w = some 0 → p = 0) :
    Mece.operatorToInterval op (.finite p) (w.map .finite) =
      Editor.operatorToInterval op (.finite p) (w.map .finite) := by
  cases w with
  | none => cases op <;> rfl
  | some q =>
    cases op with
    | between =>
      by_cases hq : q = 0
      · simp_all [Mece.operatorToInterval, operatorInterval, Editor.operatorToInterval, F64.order]
      · have hne : ((q : WithTop ℚ) : Bound) ≠ ((0 : ℚ) : WithTop ℚ) := by
          simpa [WithBot.coe_inj, WithTop.coe_inj] using hq
        simp only [Mece.operatorToInterval, operatorInterval, Editor.operatorToInterval, F64.order,
          Option.map_some, if_neg hne]
        rfl
    | _ => rfl

theorem number_agrees {name : String} {type : FieldType} {score : Bool}
    (hvalue : NumberThreshold (config.lookup "value") ∨ BoolThreshold (config.lookup "value"))
    (hvalue2 : NumberThreshold (config.lookup "value2") ∨ BoolThreshold (config.lookup "value2"))
    (hplain : Plain js score config)
    (hread : score = true ∨ config.lookup "fieldType" = some (.str "number")) :
    Mece.numberConstraint py name type config =
      .ok (Editor.numberConstraint js name type config) := by
  obtain ⟨p, hp, hjs⟩ := @first_threshold py js config hvalue
  obtain ⟨w, hw, hjs2⟩ := @second_threshold py js config hvalue2
  have hbound : Editor.operatorOf config = .between → w = some 0 → p = 0 := by
    rintro hop rfl
    have := hplain.bound hread hop hjs2
    rw [hjs] at this
    exact F64.finite.inj this
  unfold Mece.numberConstraint Editor.numberConstraint
  rw [hp, hw, hjs, hjs2, operatorOf_agrees hplain.operator]
  simp only [bind, Except.bind, operatorToInterval_agrees hbound]
  split <;> rfl

theorem boolThreshold_agrees (h : BoolThreshold (config.lookup "value")) :
    Mece.boolThreshold py config = Editor.boolThreshold js config := by
  unfold Mece.boolThreshold Editor.boolThreshold
  rw [given_ne_null (threshold_ne_null (.inr h))]
  cases hv : config.lookup "value" with
  | none => rfl
  | some v =>
    obtain ⟨b, rfl⟩ := h v hv
    cases b with
    | true => exact (by decide : (lower "True" == "true") = (lower "true" == "true"))
    | false => exact (by decide : (lower "False" == "true") = (lower "false" == "true"))

theorem boolean_agrees {name : String} (h : BoolThreshold (config.lookup "value"))
    (hop : config.lookup "operator" ≠ some .null) :
    Mece.booleanConstraint py name config = Editor.booleanConstraint js name config := by
  unfold Mece.booleanConstraint Editor.booleanConstraint
  rw [boolThreshold_agrees h, operatorOf_agrees hop]
  cases Editor.operatorOf config <;> rfl

theorem filter_truthy {s : String} (h : s ≠ "") :
    (some (Value.str s)).filter Value.truthy = some (.str s) := by
  simp_all [Value.truthy]

theorem types_agree {config : Dict} {s : String} {type : FieldType}
    (hs : s = "number" ∧ type = .number ∨ s = "boolean" ∧ type = .boolean)
    (h : config.lookup "fieldType" = some (.str s)) :
    Mece.fieldTypeOf config = type ∧ Editor.fieldTypeOf js config = type := by
  unfold Mece.fieldTypeOf Editor.fieldTypeOf
  have hne : s ≠ "" := by rcases hs with ⟨rfl, -⟩ | ⟨rfl, -⟩ <;> decide
  rw [given_ne_null (by rw [h]; simp), h, filter_truthy hne]
  rcases hs with ⟨rfl, rfl⟩ | ⟨rfl, rfl⟩
  · exact ⟨rfl, by simp [Js.text, show lower "number" = "number" by decide]⟩
  simp [Js.text, lower]

theorem extract_agrees {score : Bool} (hd : Declared config) (hplain : Plain js score config) :
    extractConstraint py score config = .ok (extractConditionConstraint js score config) := by
  unfold extractConstraint extractConditionConstraint
  cases hv : config.lookup "field" with
  | none => rfl
  | some v =>
    rcases hd.field v hv with rfl | ⟨name, rfl⟩
    · rfl
    · by_cases hname : name = ""
      · subst hname
        rfl
      · simp only [filter_truthy hname, hname, if_false]
        rcases hd.thresholds with ⟨htype, hvalue, hvalue2⟩ | ⟨htype, hvalue, hvalue2⟩
        · obtain ⟨hpy, hjs⟩ := @types_agree js config _ _ (.inl ⟨rfl, rfl⟩) htype
          rw [hpy, hjs, number_agrees (.inl hvalue) (.inl hvalue2) hplain (.inr htype)]
          rfl
        · obtain ⟨hpy, hjs⟩ := @types_agree js config _ _ (.inr ⟨rfl, rfl⟩) htype
          rw [hpy, hjs]
          cases score with
          | true =>
            rw [number_agrees (.inr hvalue) (.inr hvalue2) hplain (.inl rfl)]
            rfl
          | false =>
            rw [boolean_agrees hvalue hplain.operator]
            rfl

end Conditions

/-! ### Graphs -/

/-- The configuration is an object or null, and a condition is of a declared type. -/
structure Typed (node : Node) : Prop where
  config : node.config = .null ∨ ∃ kvs, node.config = .dict kvs
  declared : node.type = .condition ∨ node.type = .score →
    ∃ kvs, node.config = .dict kvs ∧ Declared kvs

/-- Nothing is null that has a default, and no range ends in zero. -/
structure Settled (js : Js) (node : Node) : Prop where
  condition : node.type = .condition ∨ node.type = .score →
    Plain js (node.type = .score) (configOf node)
  group : node.type = .group → (configOf node).lookup "groupOp" ≠ some .null

/-- A constraint of intervals or of a set, and of nothing that cannot be told. -/
structure Proper (c : FieldConstraint) : Prop where
  clear : c.isOpaque = false
  numeric : c.intervals ≠ [] → c.valueSet = none
  plain : c.intervals = [] → c.excludedPoints = []

variable {name : String} {type : FieldType}

variable {iv : Interval Bound} {ps : List Bound} {id op : String} {thresholds : Dict}

theorem proper_numeric : Proper (numericConstraint name type iv ps) :=
  ⟨rfl, fun _ => rfl, fun h => absurd h (List.cons_ne_nil _ _)⟩

theorem proper_set {s : ValueSet String} : Proper (setConstraint name type s) :=
  ⟨rfl, fun h => absurd rfl h, fun _ => rfl⟩

section Graphs
variable {py : PyText} {js : Js} {d : Definition}

variable {node : Node} {c : FieldConstraint} {walk : String → List Branch} {children childIds :
  List String} {branches : List Branch}

theorem configOf_agrees (h : Typed node) : node.configOf = .ok (configOf node) := by
  unfold Node.configOf Editor.configOf
  rcases h.config with hc | ⟨kvs, hc⟩
  · rw [hc]
    rfl
  · rw [hc]
    cases kvs <;> rfl

theorem role_agrees (h : Typed node) (hs : Settled js node) : node.role = .ok (role node) := by
  unfold Node.role Editor.role
  split
  · next hg =>
    have hgroup := hs.group hg
    rw [configOf_agrees h]
    grind [configOf, Except.map, Mece.groupType, Editor.groupType, given_ne_null]
  · rfl

theorem invertInterval_eq (iv : Interval Bound) : invertInterval iv = iv.invert := by
  unfold invertInterval Interval.invert
  split
  · rfl
  · grind

theorem invertSingle_eq (h : Proper c) : invertSingle c = invertConstraint c := by
  obtain ⟨name, type, intervals, valueSet, points, isOpaque⟩ := c
  have hclear : isOpaque = false := h.clear
  subst hclear
  cases intervals with
  | nil =>
    have hpoints : points = [] := h.plain rfl
    subst hpoints
    cases valueSet <;> rfl
  | cons iv ivs =>
    have hset : valueSet = none := h.numeric (List.cons_ne_nil _ _)
    subst hset
    simp only [invertSingle, invertConstraint, invertInterval_eq, Bool.false_eq_true, if_false]
    split
    · next hp =>
      subst hp
      rfl
    · rfl

theorem invertBranches_eq {bs : List Branch} (h : ∀ b ∈ bs, ∀ c ∈ b, Proper c) :
    Editor.invertBranches bs = Mece.invertBranches bs := by
  unfold Editor.invertBranches Mece.invertBranches
  congr 1
  refine List.flatMap_congr fun b hb => ?_
  have hsingle : ∀ c ∈ b, invertSingle c = invertConstraint c := fun c hc =>
    invertSingle_eq (h b hb c hc)
  rcases b with _ | ⟨c, _ | ⟨c', b⟩⟩
  · rfl
  · exact hsingle c List.mem_cons_self
  · exact List.flatMap_congr fun e he => by rw [hsingle e he]

theorem proper_invert (h : Proper c) : ∀ b ∈ invertConstraint c, ∀ c' ∈ b, Proper c' := by
  intro b hb c' hc'
  unfold invertConstraint at hb
  split at hb
  · simp_all
  · split at hb
    · split at hb
      · obtain ⟨iv, -, rfl⟩ := List.mem_map.1 hb
        rw [List.mem_singleton.1 hc']
        exact proper_numeric
      · obtain ⟨p, -, rfl⟩ := List.mem_map.1 hb
        rw [List.mem_singleton.1 hc']
        exact proper_numeric
    · simp_all [proper_set]
    · cases hb

theorem proper_inverts {bs : List Branch} (h : ∀ b ∈ bs, ∀ c ∈ b, Proper c) :
    ∀ b ∈ Mece.invertBranches bs, ∀ c ∈ b, Proper c := by
  intro b hb c hc
  rcases of_mem_orUnconstrained hb with hb | ⟨-, rfl⟩
  · obtain ⟨b', hb', hmem⟩ := List.mem_flatMap.1 hb
    obtain ⟨e, he, hmem | ⟨-, rfl⟩⟩ := mem_invertBranch hmem
    · exact proper_invert (h b' hb' e he) b hmem c hc
    · cases hc
  · cases hc

theorem proper_extract {score : Bool} {config : Dict} (hd : Declared config)
    (h : extractConditionConstraint js score config = some c) : Proper c := by
  unfold extractConditionConstraint at h
  have hnum : ∀ name type, Proper (Editor.numberConstraint js name type config) := by
    intro name type
    unfold Editor.numberConstraint
    split <;> exact proper_numeric
  split at h
  · split at h
    · cases h
    · simp only at h
      split at h
      · cases h
        exact hnum _ _
      · next hne =>
        rcases hd.thresholds with ⟨htype, -⟩ | ⟨htype, -⟩
        · rw [(@types_agree js config _ _ (.inl ⟨rfl, rfl⟩) htype).2] at hne
          simp at hne
        · rw [(@types_agree js config _ _ (.inr ⟨rfl, rfl⟩) htype).2] at h
          simp only [reduceCtorEq, if_false, if_true] at h
          cases h
          exact proper_set
  · cases h

theorem expandAndBranches_eq {result : List Branch}
    (hr : result ≠ []) (h : ∀ child ∈ children, walk child ≠ []) :
    expandAndBranches walk result children = (children.map walk).foldl crossCapped result := by
  induction children generalizing result with
  | nil => rfl
  | cons child children ih => simp_all [crossCapped_ne_nil, expandAndBranches]

theorem expandOrBranches_eq {below : String → Except PyError (List Branch)}
    (h : ∀ child ∈ children, below child = .ok (walk child)) :
    (expandOr below branches children).map orUnconstrained =
      .ok (expandOrBranches walk branches children) := by
  have htake : ∀ bs : List Branch, orUnconstrained (bs.take BRANCH_CAP) =
      (orUnconstrained bs).take BRANCH_CAP := fun bs => by cases bs <;> rfl
  induction children generalizing branches with
  | nil => simp only [expandOr, expandOrBranches, Except.map, htake]
  | cons child children ih =>
    rw [expandOr, expandOrBranches]
    split
    · simp only [Except.map, htake]
    · rw [h child List.mem_cons_self]
      exact ih fun c hc => h c (List.mem_cons_of_mem _ hc)

theorem mem_expandOrBranches {b : Branch} (h : b ∈ expandOrBranches walk branches children) :
    b = [] ∨ b ∈ branches ∨ ∃ child ∈ children, b ∈ walk child := by
  have htake : ∀ bs : List Branch, b ∈ (orUnconstrained bs).take BRANCH_CAP → b = [] ∨ b ∈ bs := by
    intro bs hb
    rcases of_mem_orUnconstrained (List.mem_of_mem_take hb) with hb | ⟨-, hb⟩
    · exact .inr hb
    · exact .inl hb
  induction children generalizing branches with
  | nil => exact (htake _ h).imp_right .inl
  | cons child children ih =>
    rw [expandOrBranches] at h
    split at h
    · exact (htake _ h).imp_right .inl
    grind

theorem expandOrBranches_ne_nil : expandOrBranches walk branches children ≠ [] := by
  have htake : ∀ bs : List Branch, (orUnconstrained bs).take BRANCH_CAP ≠ [] := fun bs hnil => by
    rcases List.take_eq_nil_iff.1 hnil with h | h
    · cases h
    · exact orUnconstrained_ne_nil bs h
  induction children generalizing branches with
  | nil => exact htake _
  | cons child children ih =>
    rw [expandOrBranches]
    split
    · exact htake _
    · exact ih

theorem flatMap_ne_nil (hne : childIds ≠ [])
    (h : ∀ child, walk child ≠ []) : childIds.flatMap walk ≠ [] := by
  simp_all [List.exists_mem_of_ne_nil]

theorem expandNode_ne_nil
    (h : ∀ child, walk child ≠ []) : expandNode js node walk childIds ≠ [] := by
  have hcons : ∀ (bs : List Branch) (c : FieldConstraint),
      (if bs.isEmpty then [[c]] else bs.map (c :: ·)) ≠ [] := by
    intro bs c
    cases bs <;> simp
  unfold expandNode
  split
  case h_5 =>
    split
    · exact List.cons_ne_nil _ _
    · exact orUnconstrained_ne_nil _
  case h_7 => exact List.cons_ne_nil _ _
  case h_3 =>
    split
    · exact List.cons_ne_nil _ _
    simp_all [expandAndBranches_eq, expandAnd_ne_nil]
  case h_4 =>
    split
    · exact List.cons_ne_nil _ _
    · exact expandOrBranches_ne_nil
  case h_6 =>
    split
    · exact List.cons_ne_nil _ _
    · next hne => exact flatMap_ne_nil (by simpa using hne) h
  all_goals
    split
    · exact List.cons_ne_nil _ _
    · exact hcons _ _

theorem walk_ne_nil (f : ℕ) (visiting : List String) (nid : String) :
    Editor.walk js d f visiting nid ≠ [] := by
  induction f generalizing visiting nid with
  | zero => exact List.cons_ne_nil _ _
  | succ f ih =>
    rw [Editor.walk]
    split
    · exact List.cons_ne_nil _ _
    · split
      · exact List.cons_ne_nil _ _
      · exact expandNode_ne_nil (ih _)

theorem role_condition (h : role node = .condition ∨ role node = .score) :
    node.type = .condition ∨ node.type = .score := by
  unfold role at h
  split at h
  · have hne : ∀ config,
        Editor.groupType config ≠ .condition ∧ Editor.groupType config ≠ .score := by
      intro config
      unfold Editor.groupType
      split
      · grind
      · exact ⟨by simp, by simp⟩
    simp_all
  · exact h

theorem condition_config (hd : Typed node)
    (h : role node = .condition ∨ role node = .score) : Declared (configOf node) := by
  obtain ⟨kvs, hc, hdecl⟩ := hd.declared (role_condition h)
  rw [configOf, hc]
  exact hdecl

theorem proper_node (hd : Typed node) (hne : ∀ child, walk child ≠ [])
    (h : ∀ child, ∀ b ∈ walk child, ∀ c ∈ b, Proper c) :
    ∀ b ∈ expandNode js node walk childIds, ∀ c ∈ b, Proper c := by
  have hnone : ∀ b ∈ ([[]] : List Branch), ∀ c ∈ b, Proper c := unconstrained_shape
  have hflat : ∀ b ∈ childIds.flatMap walk, ∀ c ∈ b, Proper c := by
    intro b hb
    obtain ⟨child, -, hb⟩ := List.mem_flatMap.1 hb
    exact h child b hb
  have hcondition : role node = .condition ∨ role node = .score → ∀ c,
      extractConditionConstraint js (node.type = .score) (configOf node) = some c →
      ∀ bs : List Branch, (∀ b ∈ bs, ∀ c ∈ b, Proper c) →
      ∀ b ∈ (if bs.isEmpty then [[c]] else bs.map (c :: ·)), ∀ c' ∈ b, Proper c' := by
    intro hrole c hc bs hbs b hb c' hc'
    have hproper := proper_extract (condition_config hd hrole) hc
    split at hb
    · rw [List.mem_singleton.1 hb] at hc'
      rw [List.mem_singleton.1 hc']
      exact hproper
    · grind -ring -linarith
  unfold expandNode
  cases hrole : role node with
  | condition | score =>
    dsimp only
    split
    · exact hnone
    · next c hc =>
      refine hcondition (by simp [hrole]) c hc _ ?_
      split
      · exact hnone
      · exact hflat
  | and =>
    dsimp only
    split
    · exact hnone
    · intro b hb c hc
      rw [expandAndBranches_eq (List.cons_ne_nil _ _) fun child _ => hne child] at hb
      rcases expandAnd_mem hb hc with ⟨r, hr, hcr⟩ | ⟨part, hpart, b', hb', hcb⟩
      · exact hnone r hr c hcr
      grind -ring -linarith
  | or =>
    dsimp only
    split
    · exact hnone
    · intro b hb c hc
      rcases mem_expandOrBranches hb with rfl | hb | ⟨child, -, hb⟩
      · cases hc
      · cases hb
      · exact h child b hb c hc
  | not => grind -ring -linarith [invertBranches_eq, proper_inverts]
  | trigger =>
    dsimp only
    split
    · exact hnone
    · exact hflat
  | group | outcome | other => exact hnone

theorem walk_agrees (h : ∀ node ∈ d.nodes, Typed node ∧ Settled js node) (f : ℕ)
    (visiting : List String) (nid : String) :
    Mece.walk py d f visiting nid = .ok (Editor.walk js d f visiting nid) ∧
      ∀ b ∈ Editor.walk js d f visiting nid, ∀ c ∈ b, Proper c := by
  have hnone : ∀ b ∈ ([[]] : List Branch), ∀ c ∈ b, Proper c := unconstrained_shape
  induction f generalizing visiting nid with
  | zero => exact ⟨rfl, hnone⟩
  | succ f ih =>
    rw [Mece.walk, Editor.walk]
    split
    · exact ⟨rfl, hnone⟩
    · cases hnode : d.node nid with
      | none => exact ⟨rfl, hnone⟩
      | some node =>
        have hmem : node ∈ d.nodes := List.mem_reverse.1 (List.mem_of_find?_eq_some hnode)
        obtain ⟨htyped, hsettled⟩ := h node hmem
        have hparts : (d.children nid).mapM (Mece.walk py d f (nid :: visiting)) =
            .ok ((d.children nid).map (Editor.walk js d f (nid :: visiting))) :=
          mapM_of_ok fun child _ => (ih _ child).1
        have hne : ∀ child, Editor.walk js d f (nid :: visiting) child ≠ [] := walk_ne_nil _ _
        have hflat : ((d.children nid).map (Editor.walk js d f (nid :: visiting))).flatten =
            (d.children nid).flatMap (Editor.walk js d f (nid :: visiting)) := rfl
        refine ⟨?_, proper_node htyped hne fun child => (ih _ child).2⟩
        simp only [role_agrees htyped hsettled, expandNode]
        cases hrole : role node with
        | condition | score =>
          have hcond : role node = .condition ∨ role node = .score := by simp [hrole]
          simp only [configOf_agrees htyped, bind, Except.bind, hparts, hflat,
            extract_agrees (condition_config htyped hcond)
              (hsettled.condition (role_condition hcond))]
          cases extractConditionConstraint js (node.type = .score) (configOf node) with
          | none => rfl
          | some c => cases hchildren : d.children nid with
            | nil => rfl
            | cons child children => simp_all [orUnconstrained]
        | and => simp_all [bind, Except.bind, expandAnd, expandAndBranches_eq]
        | or =>
          rw [expandOrBranches_eq fun child _ => (ih _ child).1]
          cases d.children nid <;> rfl
        | not =>
          cases d.children nid with
          | nil => rfl
          | cons child children =>
            simp only [(ih _ child).1, Except.map, invertBranches_eq (ih _ child).2]
        | trigger =>
          simp only [hparts, bind, Except.bind, hflat]
          cases hchildren : d.children nid with
          | nil => rfl
          | cons child children => simp_all [orUnconstrained]
        | group | outcome | other => rfl

theorem space_agrees (hnil : d.conditions = [])
    (h : ∀ node ∈ d.nodes, Typed node ∧ Settled js node) :
    constraintSpace py d = .ok (extractRuleConstraintSpace js d) ∧
      ∀ b ∈ extractRuleConstraintSpace js d, ∀ c ∈ b, Proper c := by
  have hwalk := fun nid => @walk_agrees py js d h (d.nodes.length + 1) [] nid
  have hroots : d.roots.mapM (Mece.walk py d (d.nodes.length + 1) []) =
      .ok (d.roots.map (Editor.walk js d (d.nodes.length + 1) [])) :=
    mapM_of_ok fun nid _ => (hwalk nid).1
  have hnone : ∀ b ∈ ([[]] : List Branch), ∀ c ∈ b, Proper c := unconstrained_shape
  unfold constraintSpace extractRuleConstraintSpace
  rw [hnil, List.isEmpty_nil, if_pos rfl, hroots]
  cases hnodes : d.nodes with
  | nil =>
    have hempty : d.roots = [] := by
      rw [Definition.roots, hnodes]
      rfl
    rw [hempty]
    exact ⟨rfl, hnone⟩
  | cons node nodes =>
    rw [← hnodes, List.isEmpty_eq_false_iff.2 (hnodes ▸ List.cons_ne_nil _ _)]
    cases hempty : d.roots with
    | nil => exact ⟨rfl, hnone⟩
    | cons root roots =>
      refine ⟨rfl, fun b hb c hc => ?_⟩
      rcases of_mem_orUnconstrained (List.mem_of_mem_take hb) with hb | ⟨-, rfl⟩
      · grind
      · cases hc

end Graphs

/-! ### Reports -/

/-- No boolean field of a branch is left without a value. -/
def Valued (bs : List Branch) : Prop :=
  ∀ b ∈ bs, ∀ c ∈ normalizeBranch b, isBoolean c = true → ∀ s, c.valueSet = some s →
    s.included ≠ some []

/-- The first branches that overlap on fields they share have ranges or sets both on one of
    them. -/
def Spoken (bs bs' : List Branch) : Prop :=
  ∀ p, (bs.product bs').find? (fun b => branchesOverlap b.1 b.2) = some p →
    sharedFields (normalizeBranch p.1) (normalizeBranch p.2) ≠ [] →
    (sharedFields (normalizeBranch p.1) (normalizeBranch p.2)).any described = true

section Reports
variable {spaces : List RuleSpace}

theorem normalize_clear {b : Branch} (h : ∀ c ∈ b, Proper c) :
    ∀ c ∈ normalizeBranch b, c.isOpaque = false :=
  normalize_forall (fun e c _ he hc => by simp [FieldConstraint.meet, he, hc])
    fun c hc => (h c hc).clear

theorem pairDiagnostic_agrees {ra rb : RuleSpace} (ha : ∀ b ∈ ra.branches, ∀ c ∈ b, Proper c)
    (hb : ∀ b ∈ rb.branches, ∀ c ∈ b, Proper c) (hs : Spoken ra.branches rb.branches) :
    checkRulePairOverlap ra rb = pairDiagnostic ra rb := by
  unfold checkRulePairOverlap pairDiagnostic
  cases hfind : (ra.branches.product rb.branches).find? (fun b => branchesOverlap b.1 b.2) with
  | none => rfl
  | some p =>
    obtain ⟨ba, bb⟩ := p
    have hmem := List.mem_product.1 (List.mem_of_find?_eq_some hfind)
    have hoverlap : branchesOverlap ba bb = true := by simpa using List.find?_some hfind
    have hall : (sharedFields (normalizeBranch ba) (normalizeBranch bb)).filter
        (fun ab => constraintsOverlap ab.1 ab.2) =
        sharedFields (normalizeBranch ba) (normalizeBranch bb) :=
      List.filter_eq_self.2 (List.all_eq_true.1 hoverlap)
    have hclear : (sharedFields (normalizeBranch ba) (normalizeBranch bb)).any
        (fun ab => ab.1.isOpaque || ab.2.isOpaque) = false := by
      refine List.any_eq_false.2 fun ab hab => ?_
      obtain ⟨x, y⟩ := ab
      obtain ⟨hx, hy, -⟩ := mem_sharedFields hab
      simp [normalize_clear (ha ba hmem.1) x hx, normalize_clear (hb bb hmem.2) y hy]
    show Editor.overlapDiagnostic ra rb ba bb = Mece.overlapDiagnostic ra rb ba bb
    simp only [Editor.overlapDiagnostic, Mece.overlapDiagnostic, hall, hclear]
    by_cases hne : sharedFields (normalizeBranch ba) (normalizeBranch bb) = []
    · simp [hne]
    · have hspoken := hs (ba, bb) hfind hne
      simp only at hspoken
      simp [hne, hspoken]

theorem pairDiagnostics_agree (h : ∀ r ∈ spaces, ∀ b ∈ r.branches, ∀ c ∈ b, Proper c)
    (hs : spaces.Pairwise fun r r' => Spoken r.branches r'.branches) :
    Editor.pairDiagnostics spaces = Mece.pairDiagnostics spaces := by
  induction spaces with
  | nil => rfl
  | cons r rs ih =>
    obtain ⟨hr, hrs⟩ := List.pairwise_cons.1 hs
    have hhead : rs.filterMap (checkRulePairOverlap r) = rs.filterMap (pairDiagnostic r) :=
      List.filterMap_congr fun r' hr' => pairDiagnostic_agrees (h r List.mem_cons_self)
        (h r' (List.mem_cons_of_mem _ hr')) (hr r' hr')
    grind [Editor.pairDiagnostics, Mece.pairDiagnostics]

theorem coverage_agrees {cs : Branch} (h : ∀ c ∈ cs, isBoolean c = true → ∀ s,
    c.valueSet = some s → s.included ≠ some []) :
    Editor.coverageDiagnostics cs = Mece.coverageDiagnostics cs := by
  have hvalues : ∀ name, collect (fun c => if isBoolean c then
      c.valueSet.toList.flatMap Editor.booleanValues else []) cs name =
      collect (fun c => if isBoolean c then
        c.valueSet.toList.flatMap Mece.booleanValues else []) cs name := by
    intro name
    refine List.flatMap_congr fun c hc => ?_
    cases hb : isBoolean c with
    | false => rfl
    | true =>
      refine List.flatMap_congr fun s hs => ?_
      have hne := h c (List.mem_filter.1 hc).1 hb s (Option.mem_toList.1 hs)
      unfold Editor.booleanValues Mece.booleanValues
      cases hincl : s.included with
      | none => rfl
      | some vs =>
        cases vs with
        | nil => exact absurd hincl hne
        | cons v vs => rfl
  simp only [Editor.coverageDiagnostics, Mece.coverageDiagnostics, hvalues]

theorem pairReport_agrees (h : ∀ r ∈ spaces, ∀ b ∈ r.branches, ∀ c ∈ b, Proper c)
    (hv : ∀ r ∈ spaces, Valued r.branches)
    (hs : spaces.Pairwise fun r r' => Spoken r.branches r'.branches) :
    (Editor.pairReport spaces).diagnostics = (Mece.pairReport spaces).diagnostics := by
  have hcov := @coverage_agrees (spaces.flatMap fun space => space.branches.flatMap normalizeBranch)
    (by
      intro c hc
      obtain ⟨r, hr, hc⟩ := List.mem_flatMap.1 hc
      obtain ⟨b, hb, hc⟩ := List.mem_flatMap.1 hc
      exact hv r hr b hb c hc)
  show Editor.pairDiagnostics spaces ++ _ = Mece.pairDiagnostics spaces ++ _
  rw [pairDiagnostics_agree h hs, hcov]

end Reports

/-! ### The verdicts -/

/-- A rule that is a graph, its conditions of declared types. -/
structure Graph (r : Rule) : Prop where
  shorthand : r.conditions = []
  conditions : (graph r).conditions = []
  nodes : ∀ node ∈ (graph r).nodes, Typed node

/-- Rules that the editor and the gate see alike: nothing is null that has a default and no range
    ends in zero, no boolean field is left without a value, and no two rules share fields of
    different kinds only. -/
structure Alike (js : Js) (rules : List Rule) : Prop where
  settled : ∀ r ∈ rules, ∀ node ∈ (graph r).nodes, Settled js node
  valued : ∀ r ∈ rules, Valued (extractRuleConstraintSpace js (graph r))
  spoken : rules.Pairwise fun r r' =>
    Spoken (extractRuleConstraintSpace js (graph r)) (extractRuleConstraintSpace js (graph r'))

def declaredCondition (id field op : String) (thresholds : Dict) : Node :=
  ⟨id, .condition, .dict (([("field", .str field), ("fieldType", .str "number"),
    ("operator", .str op)] : Dict) ++ thresholds)⟩

theorem declared_graph {rid : String} (hv : NumberThreshold (thresholds.lookup "value"))
    (hw : NumberThreshold (thresholds.lookup "value2")) :
    Graph (oneCondition rid (declaredCondition id "x" op thresholds)) := by
  refine ⟨rfl, rfl, fun node hnode => ?_⟩
  rw [List.mem_singleton.1 hnode]
  exact ⟨.inr ⟨_, rfl⟩, fun _ => ⟨_, rfl, fun v h => .inr ⟨"x", (Option.some.inj h).symm⟩,
    .inl ⟨rfl, hv, hw⟩⟩⟩

def upToZero : List Rule :=
  [oneCondition "a"
      (declaredCondition "n" "x" "between" [("value", .int (-5)), ("value2", .int 0)]),
    oneCondition "b" (declaredCondition "n" "x" "==" [("value", .int (-2))])]

def plainJs : Js := ⟨fun _ => "0", fun _ => .nan, fun _ => .nan⟩

def aroundTen : List Rule :=
  [oneCondition "a" (declaredCondition "n" "x" ">=" [("value", .int 10)]),
    oneCondition "b" (declaredCondition "n" "x" "<" [("value", .int 10)])]

theorem settled_condition {js : Js}
    (h : Operator.ofText op ≠ .between) : Settled js (declaredCondition id "x" op thresholds) :=
  ⟨fun _ => ⟨fun hnull => (by cases hnull), fun _ hop _ => absurd hop h⟩,
    fun hgroup => (by cases hgroup)⟩

theorem valued_numeric : Valued [[numericConstraint name type iv ps]] := by
  intro b hb c hc hbool
  rw [List.mem_singleton.1 hb] at hc
  rw [List.mem_singleton.1 hc] at hbool
  cases hbool

end RuleMind.Mece
