/-
  The optimiser of `app/decision_tables.py`: what it reports of a table, and when its
  reports are true.
-/
import RuleMind.ShadowedRows
import RuleMind.MutualExclusion

namespace RuleMind.DecisionTable
open Text (F64)
open RuleTree (iterate)
open Mece (Severity)

/-! ### The report -/

inductive ReportType
  | invalid
  | unreachable
  | notAnalyzable
  | conflict
  | gap
  deriving DecidableEq, Repr

structure Diagnostic where
  type : ReportType
  severity : Severity
  rows : List Value
  shadowedBy : Option Value
  fields : List String
  deriving DecidableEq

structure Report where
  diagnostics : List Diagnostic
  hasConflicts : Bool
  hasGaps : Bool
  hasInvalidValues : Bool
  hasUnreachableRows : Bool
  hasUnanalyzableRows : Bool
  rowCount : ℕ
  hitPolicy : String
  ok : Bool

section Analysis
variable (py : PyText)

def rowDiagnostic (type : ReportType) (severity : Severity) (row : Value) : Diagnostic :=
  ⟨type, severity, [rowId row], none, []⟩

/-- `str(inp.get("field_type") or inp.get("fieldType") or "").lower()`. -/
def columnType (input : Value) : String :=
  lower (py.str (Value.orElse (some (fieldTypeOf input)) (.str "")))

/-- The threshold of a numeric column is no number. -/
def notNumber (type : String) (op : Operator) (value : Value) : Except PyError Bool :=
  if type ∈ ["number", "integer", "float"] && op ∉ [.isIn, .notIn, .exists, .notExists] then
    (num py value).map Option.isNone
  else .ok false

/-- The threshold is none of the values the column allows. -/
def notAllowed (input : Value) (op : Operator) (value : Value) : Except PyError Bool :=
  let allowed := eitherField input "allowed_values" "allowedValues"
  if allowed.truthy && op = .eq then
    (iterate (some allowed)).map fun vs => optionText py value ∉ vs.map py.str
  else .ok false

/-- The threshold of a boolean column is no boolean. -/
def notBoolean (type : String) (value : Value) : Bool :=
  type = "boolean" &&
    lower (String.ofList (pyStrip (py.str value).toList)) ∉ ["true", "false", "1", "0", "yes", "no"]

def invalidCell (row : Value) (input : Value) (cell : Value) : Except PyError (List Diagnostic) := do
  if ← isWildcard cell then
    .ok []
  else
    let op := cellOperator py cell
    let value := rawValue cell
    let type := columnType py input
    let number ← notNumber py type op value
    let outside ← notAllowed py input op value
    let check (failed : Bool) (severity : Severity) : List Diagnostic :=
      if failed then [rowDiagnostic .invalid severity row] else []
    .ok (check (op = .between && blank (cell.field "value2")) .error ++ check number .error ++
      check (notBoolean py type value) .warning ++ check outside .warning)

def invalidCells (inputs : Dict) (row : Value) : Except PyError (List Diagnostic) := do
  let cells ← rowCells row
  let found ← inputs.mapM fun input => do
    let cell ← cellAt cells input.1
    invalidCell py row input.2 cell
  .ok found.flatten

def validOutcomes : List String := ["approve", "review", "reject", "pass", "fail"]

def invalidOutcome (output : String) (row : Value) : Except PyError (List Diagnostic) :=
  match (Value.orElse (row.field "outputs") (.dict [])).asDict with
  | none => .error .attributeError
  | some kvs =>
    let value := (kvs.lookup output).getD .null
    .ok (if !value.isNull && lower (py.str value) ∉ validOutcomes then
      [rowDiagnostic .invalid .warning row] else [])

/-- The outcomes of all rows, if there is a column for them. -/
def invalidOutcomes (rows : List Value) : Option String → Except PyError (List Diagnostic)
  | none => .ok []
  | some output => (rows.mapM (invalidOutcome py output)).map List.flatten

/-- `_row_has_opaque_cell`, on the cells of a row. -/
def opaqueCell (cells : Value) : Dict → Except PyError Bool
  | [] => .ok false
  | (id, input) :: inputs => do
    let region ← cellRegion py (← cellAt cells id) (fieldTypeOf input)
    if region = .unknown then
      .ok true
    else
      opaqueCell cells inputs

def rowHasOpaqueCell (inputs : Dict) (row : Value) : Except PyError Bool := do
  let cells ← rowCells row
  opaqueCell py cells inputs

/-- `str(inp.get("variable_id") or inp.get("variable") or inp.get("name") or input_id)`. -/
def fieldOf (id : String) (input : Value) : String :=
  py.str (Value.orElse (input.field "variable_id") (Value.orElse (input.field "variable")
    (Value.orElse (input.field "name") (.str id))))

/-- The condition a cell is turned into: its operator and its threshold, no more. -/
def cellCondition (id : String) (input cell : Value) : Dict :=
  [("field", .str (fieldOf py id input)), ("operator", (cell.field "operator").getD (.str "==")),
    ("value", rawValue cell)]

/-- The conditions of the cells of a row, wildcards apart. -/
def rowConditions (cells : Value) : Dict → Except PyError (List Value)
  | [] => .ok []
  | (id, input) :: inputs => do
    let cell ← cellAt cells id
    let wildcard ← isWildcard cell
    let rest ← rowConditions cells inputs
    .ok (if wildcard then rest else .dict (cellCondition py id input cell) :: rest)

def rowToRule (inputs : Dict) (row : Value) (index : ℕ) : Except PyError Mece.Rule := do
  let cells ← rowCells row
  let conditions ← rowConditions py cells inputs
  .ok ⟨py.str (Value.orElse (row.field "id") (.str ("row_" ++ toString (index + 1)))),
    some ⟨conditions, [], []⟩, []⟩

/-- What the table makes of a diagnostic of the analysis of its rows. -/
def tableDiagnostic (policy : String) (hasDefault : Bool) (d : Mece.Diagnostic) : Diagnostic :=
  match d.type with
  | .overlap => ⟨.conflict, if policy ∈ ["unique", "collect"] then .error else .info,
      d.involvedRules.map .str, none, d.fields⟩
  | .gap => ⟨.gap, if hasDefault then .info else d.severity, [], none, d.fields⟩

/-- `bool((table.get("default_row") or {}).get("outputs"))`. -/
def hasDefaultRow (table : Value) : Except PyError Bool :=
  match (Value.orElse (table.field "default_row") (.dict [])).asDict with
  | none => .error .attributeError
  | some kvs => .ok ((kvs.lookup "outputs").any Value.truthy)

def meceDiagnostics (table : Value) (inputs : Dict) (rows : List Value) :
    Except PyError (List Diagnostic) := do
  let rules ← rows.zipIdx.mapM fun row => rowToRule py inputs row.1 row.2
  if rules.isEmpty then
    .ok []
  else
    let mece ← Mece.analyzeMece py rules
    let hasDefault ← hasDefaultRow table
    .ok (mece.diagnostics.map (tableDiagnostic (hitPolicyText py table) hasDefault))

def unreachableDiagnostics (table : Value) (inputs : Dict) (rows : List Value) :
    Except PyError (List Diagnostic) :=
  if hitPolicyText py table ∈ ["first", "priority"] then
    (unreachableRows py inputs [] rows).map fun found => found.map fun le =>
      ⟨.unreachable, .warning, [rowId le.1], some (rowId le.2), []⟩
  else .ok []

def hasError (type : ReportType) (ds : List Diagnostic) : Bool :=
  ds.any fun d => d.type = type && d.severity = .error

def analyzeDecisionTable (table : Value) : Except PyError Report :=
  match table.asDict with
  | none => .error .attributeError
  | some _ => do
    let inputs ← inputIndex py table
    let rows ← tableRows table
    let cells ← rows.mapM (invalidCells py inputs)
    let outs ← iterate (table.field "outputs")
    let outcomeOutputId ← outcomeOutput py outs
    let outcomes ← invalidOutcomes py rows outcomeOutputId
    let unreachable ← unreachableDiagnostics py table inputs rows
    let unknown ← rows.mapM fun row => (rowHasOpaqueCell py inputs row).map fun isOpaque =>
      if isOpaque then [rowDiagnostic .notAnalyzable .info row] else []
    let mece ← meceDiagnostics py table inputs rows
    let diagnostics := cells.flatten ++ outcomes ++ unreachable ++ unknown.flatten ++ mece
    .ok {
      diagnostics
      hasConflicts := hasError .conflict diagnostics
      hasGaps := hasError .gap diagnostics
      hasInvalidValues := hasError .invalid diagnostics
      hasUnreachableRows := diagnostics.any (·.type = .unreachable)
      hasUnanalyzableRows := diagnostics.any (·.type = .notAnalyzable)
      rowCount := rows.length
      hitPolicy := hitPolicyText py table
      ok := diagnostics.all (·.severity ≠ .error) }

end Analysis

/-! ### Unreachable rows -/

section Unreachable
variable {py : PyText} {search : RegexSearch} {table : Value} {report : Report}

theorem analyzeDecisionTable_ok (h : analyzeDecisionTable py table = .ok report) :
    ∃ inputs rows cells outcomes unreachable unknown mece,
      inputIndex py table = .ok inputs ∧ tableRows table = .ok rows ∧
      rows.mapM (invalidCells py inputs) = .ok cells ∧
      (∃ output, invalidOutcomes py rows output = .ok outcomes) ∧
      unreachableDiagnostics py table inputs rows = .ok unreachable ∧
      (rows.mapM fun row => (rowHasOpaqueCell py inputs row).map fun isOpaque =>
        if isOpaque then [rowDiagnostic .notAnalyzable .info row] else []) = .ok unknown ∧
      meceDiagnostics py table inputs rows = .ok mece ∧
      report.diagnostics = cells.flatten ++ outcomes ++ unreachable ++ unknown.flatten ++ mece ∧
      report.hasConflicts = hasError .conflict report.diagnostics ∧
      report.hasUnanalyzableRows = report.diagnostics.any (·.type = .notAnalyzable) := by
  unfold analyzeDecisionTable at h
  split at h
  · cases h
  · obtain ⟨inputs, hinputs, h⟩ := bind_eq_ok.1 h
    obtain ⟨rows, hrows, h⟩ := bind_eq_ok.1 h
    obtain ⟨cells, hcells, h⟩ := bind_eq_ok.1 h
    obtain ⟨outs, -, h⟩ := bind_eq_ok.1 h
    obtain ⟨output, -, h⟩ := bind_eq_ok.1 h
    obtain ⟨outcomes, houtcomes, h⟩ := bind_eq_ok.1 h
    obtain ⟨unreachable, hunreachable, h⟩ := bind_eq_ok.1 h
    obtain ⟨unknown, hunknown, h⟩ := bind_eq_ok.1 h
    obtain ⟨mece, hmece, h⟩ := bind_eq_ok.1 h
    cases h
    exact ⟨inputs, rows, cells, outcomes, unreachable, unknown, mece, hinputs, hrows, hcells,
      ⟨output, houtcomes⟩, hunreachable, hunknown, hmece, rfl, rfl, rfl⟩

variable {ds : List Diagnostic}

variable {inputs : Dict} {row : Value} {rows : List Value}

theorem invalidCells_type
    (h : invalidCells py inputs row = .ok ds) : ∀ d ∈ ds, d.type = .invalid := by
  have hcheck : ∀ {b : Bool} {severity : Severity} {d : Diagnostic},
      d ∈ (if b then [rowDiagnostic .invalid severity row] else []) → d.type = .invalid := by
    intro b severity d hd
    cases b with
    | true =>
      rw [List.mem_singleton.1 hd]
      rfl
    | false => cases hd
  obtain ⟨cells, -, h⟩ := bind_eq_ok.1 h
  obtain ⟨found, hfound, h⟩ := bind_eq_ok.1 h
  cases h
  intro d hd
  obtain ⟨ds, hds, hd⟩ := List.mem_flatten.1 hd
  obtain ⟨input, -, hinput⟩ := (mapM_mem hfound).2 ds hds
  obtain ⟨cell, -, hinput⟩ := bind_eq_ok.1 hinput
  obtain ⟨wildcard, -, hinput⟩ := bind_eq_ok.1 hinput
  cases wildcard with
  | true =>
    cases hinput
    cases hd
  | false =>
    rw [if_neg Bool.false_ne_true] at hinput
    obtain ⟨number, -, hinput⟩ := bind_eq_ok.1 hinput
    obtain ⟨outside, -, hinput⟩ := bind_eq_ok.1 hinput
    cases hinput
    rcases List.mem_append.1 hd with hd | hd
    · rcases List.mem_append.1 hd with hd | hd
      · rcases List.mem_append.1 hd with hd | hd
        · exact hcheck hd
        · exact hcheck hd
      · exact hcheck hd
    · exact hcheck hd

theorem invalidOutcome_type {output : String}
    (h : invalidOutcome py output row = .ok ds) : ∀ d ∈ ds, d.type = .invalid := by
  unfold invalidOutcome at h
  split at h
  · cases h
  · cases h
    intro d hd
    split at hd
    · rw [List.mem_singleton.1 hd]
      rfl
    · cases hd

theorem invalidOutcomes_type {output : Option String}
    (h : invalidOutcomes py rows output = .ok ds) : ∀ d ∈ ds, d.type = .invalid := by
  cases output with
  | none =>
    cases h
    exact fun _ hd => nomatch hd
  | some output =>
    obtain ⟨found, hfound, rfl⟩ := map_eq_ok.1 h
    grind [List.mem_flatten, mapM_mem, invalidOutcome_type]

theorem tableDiagnostic_type {policy : String} {hasDefault : Bool} {d : Mece.Diagnostic} :
    (tableDiagnostic policy hasDefault d).type = .conflict ∨
      (tableDiagnostic policy hasDefault d).type = .gap := by
  unfold tableDiagnostic
  grind

theorem mece_type (h : meceDiagnostics py table inputs rows = .ok ds) :
    ∀ d ∈ ds, d.type = .conflict ∨ d.type = .gap := by
  obtain ⟨rules, -, h⟩ := bind_eq_ok.1 h
  split at h
  · cases h
    exact fun _ hd => nomatch hd
  · obtain ⟨mece, -, h⟩ := bind_eq_ok.1 h
    obtain ⟨hasDefault, -, h⟩ := bind_eq_ok.1 h
    cases h
    simp [List.mem_map, tableDiagnostic_type]

theorem unreachable_mem (h : analyzeDecisionTable py table = .ok report) {d : Diagnostic}
    (hd : d ∈ report.diagnostics) (ht : d.type = .unreachable) :
    ∃ inputs rows found, inputIndex py table = .ok inputs ∧ tableRows table = .ok rows ∧
      hitPolicyText py table ∈ ["first", "priority"] ∧
      unreachableRows py inputs [] rows = .ok found ∧ ∃ later earlier, (later, earlier) ∈ found ∧
      d = ⟨.unreachable, .warning, [rowId later], some (rowId earlier), []⟩ := by
  obtain ⟨inputs, rows, cells, outcomes, unreachable, unknown, mece, hinputs, hrows, hcells,
    ⟨output, houtcomes⟩, hunreachable, hunknown, hmece, hreport, -, -⟩ := analyzeDecisionTable_ok h
  rw [hreport] at hd
  have hother : ∀ {type : ReportType}, d.type = type → type ≠ .unreachable → False :=
    fun htype hne => hne (htype.symm.trans ht)
  rcases List.mem_append.1 hd with hd | hd
  · rcases List.mem_append.1 hd with hd | hd
    · rcases List.mem_append.1 hd with hd | hd
      · rcases List.mem_append.1 hd with hd | hd
        · obtain ⟨ds, hds, hd⟩ := List.mem_flatten.1 hd
          obtain ⟨row, -, hrow⟩ := (mapM_mem hcells).2 ds hds
          exact (hother (invalidCells_type hrow d hd) (by decide)).elim
        · exact (hother (invalidOutcomes_type houtcomes d hd) (by decide)).elim
      · unfold unreachableDiagnostics at hunreachable
        split at hunreachable
        · rename_i hpolicy
          obtain ⟨found, hfound, rfl⟩ := map_eq_ok.1 hunreachable
          obtain ⟨⟨later, earlier⟩, hmem, rfl⟩ := List.mem_map.1 hd
          exact ⟨inputs, rows, found, hinputs, hrows, hpolicy, hfound, later, earlier, hmem, rfl⟩
        · cases hunreachable
          cases hd
    · obtain ⟨ds, hds, hd⟩ := List.mem_flatten.1 hd
      obtain ⟨row, -, hrow⟩ := (mapM_mem hunknown).2 ds hds
      obtain ⟨isOpaque, -, rfl⟩ := map_eq_ok.1 hrow
      cases isOpaque with
      | true =>
        rw [List.mem_singleton.1 hd] at ht
        cases ht
      | false => cases hd
  grind [mece_type]

/-- The row a report names as the one in front is in front, and reads its cells as the
    optimiser does. -/
def ReportedBehind (py : PyText) (table : Value) (d : Diagnostic) : Prop :=
  ∀ inputs rows earlier later, inputIndex py table = .ok inputs → tableRows table = .ok rows →
    earlier ∈ rows → later ∈ rows → d.rows = [rowId later] → d.shadowedBy = some (rowId earlier) →
    Behind py inputs (hitPolicy py table) earlier later

/-- A row reported as unreachable never wins. -/
theorem unreachable_never_wins (hpy : py.Reads) (h : analyzeDecisionTable py table = .ok report)
    (hids : ∀ rows, tableRows table = .ok rows → (rows.map rowId).Nodup) {d : Diagnostic}
    (hd : d ∈ report.diagnostics) (ht : d.type = .unreachable)
    (hbehind : ReportedBehind py table d) {vars : Dict} (hvars : Doubles vars) {r : TableResult}
    (hr : evaluateDecisionTable py search table vars = .ok r) :
    ∀ id ∈ d.rows, r.winningRowId ≠ id := by
  obtain ⟨inputs, rows, found, hinputs, hrows, hpolicy, hfound, later, earlier, hmem, rfl⟩ :=
    unreachable_mem h hd ht
  intro id hid
  rw [List.mem_singleton.1 hid]
  obtain ⟨hcovers, as, bs, hsplit, he⟩ := unreachableRows_ok hfound hmem
  have hrows' : rows = as ++ later :: bs := by simpa using hsplit
  subst hrows'
  have hpol : hitPolicy py table = .first ∨ hitPolicy py table = .priority := by
    unfold hitPolicy
    rcases List.mem_cons.1 hpolicy with hp | hp
    · rw [hp]
      exact Or.inl rfl
    · rw [List.mem_singleton.1 hp]
      exact Or.inr rfl
  exact behind_never_wins hpy hvars hpol hinputs hrows (hids _ hrows) he hcovers
    (hbehind inputs _ earlier later hinputs hrows (List.mem_append_left _ he) (by simp) rfl rfl) hr

end Unreachable

/-! ### A row behind another -/

/-- A row for a variable that is no less than a bound. -/
def shadowRow (id : String) (bound priority : ℤ) : Value :=
  .dict [("id", .str id), ("priority", .int priority),
    ("cells", .dict [("x", .dict [("operator", .str ">="), ("value", .int bound)])])]

/-- The second row is behind the first, but has the higher priority. -/
def shadowTable (policy : String) : Value :=
  .dict [("hit_policy", .str policy),
    ("inputs", .list [.dict [("id", .str "x"), ("field_type", .str "number")]]),
    ("rows", .list [shadowRow "a" 5 1, shadowRow "b" 10 9])]

def shadowDiagnostic : Diagnostic := ⟨.unreachable, .warning, [.str "b"], some (.str "a"), []⟩

theorem shadowTable_inputs (policy : String) : inputIndex decimalPy (shadowTable policy) =
    .ok [("x", .dict [("id", .str "x"), ("field_type", .str "number")])] := rfl

theorem shadowTable_rows (policy : String) :
    tableRows (shadowTable policy) = .ok [shadowRow "a" 5 1, shadowRow "b" 10 9] := rfl

theorem shadowTable_ids (policy : String) :
    ∀ rows, tableRows (shadowTable policy) = .ok rows → (rows.map rowId).Nodup := by
  intro rows hrows
  rw [← Except.ok.inj ((shadowTable_rows policy).symm.trans hrows)]
  show [Value.str "a", Value.str "b"].Nodup
  decide

theorem shadowTable_report {policy : String}
    (h : ((analyzeDecisionTable decimalPy (shadowTable policy)).toOption.any fun r =>
      decide (shadowDiagnostic ∈ r.diagnostics)) = true) :
    ∃ report, analyzeDecisionTable decimalPy (shadowTable policy) = .ok report ∧
      shadowDiagnostic ∈ report.diagnostics := by
  obtain ⟨report, hreport, hmem⟩ := Option.any_eq_true .. |>.1 h
  exact ⟨report, toOption_eq_some.1 hreport, of_decide_eq_true hmem⟩

theorem shadowTable_behind : ReportedBehind decimalPy (shadowTable "first") shadowDiagnostic := by
  intro inputs rows earlier later hinputs hrows he hl hid hby
  rw [← Except.ok.inj ((shadowTable_inputs "first").symm.trans hinputs)]
  have hrows := Except.ok.inj ((shadowTable_rows "first").symm.trans hrows)
  subst hrows
  obtain rfl : earlier = shadowRow "a" 5 1 := by
    rcases List.mem_cons.1 he with rfl | he
    · rfl
    · rw [List.mem_singleton.1 he] at hby
      exact absurd hby (by decide)
  obtain rfl : later = shadowRow "b" 10 9 := by
    rcases List.mem_cons.1 hl with rfl | hl
    · exact absurd hid (by decide)
    · exact List.mem_singleton.1 hl
  refine ⟨?_, fun h => absurd h (by decide), by decide, by decide⟩
  intro ecells lcells hecells hlcells input hinput ci cj hci hcj
  cases hecells
  cases hlcells
  rw [List.mem_singleton.1 hinput] at hci hcj ⊢
  cases hci
  cases hcj
  refine ⟨?_, ?_, ?_⟩
  · intro lo hi l u _
    refine ⟨5, ⟨rfl, ?_, toOption_eq_some.1 ?_⟩, fun h => absurd h (by decide)⟩
    · intro q hq
      cases hq
    · decide +kernel
  · intro lo hi l u _ hop
    exact absurd hop (by decide)
  · intro as bs ha
    exact absurd (set_operator ha).2 (by decide)

theorem shadowTable_evaluates {policy : String} {p : TableResult → Bool}
    (h : (evaluateDecisionTable decimalPy (fun _ _ => false) (shadowTable policy)
      [("x", .int 12)]).toOption.any p = true) :
    ∃ r, evaluateDecisionTable decimalPy (fun _ _ => false) (shadowTable policy)
      [("x", .int 12)] = .ok r ∧ p r = true := by simp_all [Option.any_eq_true, toOption_eq_some]

theorem doubles_of_int (name : String) (n : ℤ) : Doubles [(name, .int n)] := by
  intro key v hv q hq
  grind

/-- Both rows match, and the second does not win. -/
theorem shadowTable_second_loses : ∃ r, evaluateDecisionTable decimalPy (fun _ _ => false)
    (shadowTable "first") [("x", .int 12)] = .ok r ∧ r.matchedRowIds = [.str "a", .str "b"] ∧
    ∀ id ∈ shadowDiagnostic.rows, r.winningRowId ≠ id := by
  obtain ⟨report, hreport, hmem⟩ := @shadowTable_report "first" (by decide +kernel)
  obtain ⟨r, hr, hmatched⟩ := @shadowTable_evaluates "first"
    (fun r => r.matchedRowIds = [.str "a", .str "b"]) (by decide +kernel)
  exact ⟨r, hr, of_decide_eq_true hmatched, unreachable_never_wins decimalPy_reads hreport
    (shadowTable_ids "first") hmem rfl shadowTable_behind (doubles_of_int "x" 12) hr⟩

/-- Where priorities decide, a row reported as unreachable wins. -/
theorem shadowTable_second_wins : ∃ report d r,
    analyzeDecisionTable decimalPy (shadowTable "priority") = .ok report ∧
    d ∈ report.diagnostics ∧ d.type = .unreachable ∧ d.rows = [.str "b"] ∧
    evaluateDecisionTable decimalPy (fun _ _ => false) (shadowTable "priority") [("x", .int 12)] =
      .ok r ∧ r.winningRowId = .str "b" := by
  obtain ⟨report, hreport, hmem⟩ := @shadowTable_report "priority" (by decide +kernel)
  obtain ⟨r, hr, hwins⟩ := @shadowTable_evaluates "priority"
    (fun r => r.winningRowId = .str "b") (by decide +kernel)
  exact ⟨report, shadowDiagnostic, r, hreport, hmem, rfl, rfl, hr, of_decide_eq_true hwins⟩

/-! ### Conflicts -/

section Conflicts
variable {py : PyText} {search : RegexSearch} {table : Value} {report : Report}

def Regional (op : Operator) : Prop := op.isOrder = true ∨ op = .eq ∨ op = .isIn

instance (op : Operator) : Decidable (Regional op) := inferInstanceAs (Decidable (_ ∨ _ ∨ _))

variable {s : String} {r : Mece.Reading} {input : String × Value}

theorem ofText_mem (h : Operator.ofText s ≠ .other) : s ∈ operatorNames.map Prod.fst := by
  by_contra hs
  refine h ?_
  have hnone : operatorNames.lookup s = none := by
    refine List.lookup_eq_none_iff.2 fun p hp => ?_
    rw [bne_iff_ne]
    rintro rfl
    exact hs (List.mem_map_of_mem hp)
  rw [Operator.ofText, hnone]
  rfl

theorem operator_float (h : Regional (Operator.ofText s)) : py.float s = none := by
  have hmem := ofText_mem (s := s) (by rintro hs; rw [hs] at h; exact absurd h (by decide))
  simp only [operatorNames, List.map_cons, List.map_nil, List.mem_cons, List.not_mem_nil,
    or_false] at hmem
  rcases hmem with rfl | rfl | rfl | rfl | rfl | rfl | rfl | rfl | rfl | rfl | rfl | rfl <;>
    first
    | exact float_word py (List.all_iff_forall_prop.1 (by decide)) (by decide)
    | exact absurd h (by decide)

variable {cell : Value} {inputs vars : Dict} {rows : List Value}

theorem isWildcard_false (h : isWildcard cell = .ok false) :
    ∃ v, cell.field "operator" = some v ∧ v ≠ .null ∧ (∀ vs, v ≠ .list vs) ∧
      ∀ kvs, v ≠ .dict kvs := by
  unfold isWildcard at h
  split at h
  · split at h
    · cases h
    · cases h
    · cases h
    · cases h
    · cases h
    · rename_i s _ hop
      exact ⟨.str s, hop, by simp⟩
    simp_all
  · cases h

theorem operator_text (hpy : py.Reads) (hw : isWildcard cell = .ok false)
    (hd : ((cell.field "operator").getD .null).IsDouble) (hop : Regional (cellOperator py cell)) :
    ∃ s, cell.field "operator" = some (.str s) := by
  obtain ⟨v, hv, hnull, hlist, hdict⟩ := isWildcard_false hw
  rw [hv] at hd
  have hop : Regional (Operator.ofText (py.str v)) := by
    unfold cellOperator at hop
    rw [hv] at hop
    exact hop
  cases v with
  | str s => exact ⟨s, hv⟩
  | int n =>
    have hnum : py.float (py.str (.int n)) = none := operator_float hop
    cases (float_repr py n).symm.trans hnum
  | float q =>
    have hnum : py.float (py.str (.float q)) = none := operator_float hop
    cases (hpy.reads q (hd q rfl)).symm.trans hnum
  | inf b =>
    cases b with
    | true => exact absurd hop (by decide : ¬ Regional (Operator.ofText "-inf"))
    | false => exact absurd hop (by decide : ¬ Regional (Operator.ofText "inf"))
  | bool b =>
    cases b with
    | true => exact absurd hop (by decide : ¬ Regional (Operator.ofText "True"))
    | false => exact absurd hop (by decide : ¬ Regional (Operator.ofText "False"))
  | null => exact absurd rfl hnull
  | list vs => exact absurd rfl (hlist vs)
  | dict kvs => exact absurd rfl (hdict kvs)

theorem regional_of_region {ft : Value} {region : Region} (hw : isWildcard cell = .ok false)
    (h : cellRegion py cell ft = .ok region) (hne : region ≠ .unknown) :
    Regional (cellOperator py cell) := by
  rcases cellRegion_cases h with ⟨hw', -⟩ | ⟨-, hr⟩ | ⟨-, -, hop, -⟩
  · rw [hw] at hw'
    cases hw'
  · rcases @textRegion_cases py (cellOperator py cell) (rawValue cell) with ⟨hop, -⟩ | ⟨hop, -⟩ | ht
    · exact Or.inr (Or.inl hop)
    · exact Or.inr (Or.inr hop)
    · exact absurd (hr.trans ht) hne
  · exact hop.imp_right Or.inl

theorem opaqueCell_false {cells : Value} :
    ∀ {inputs : Dict}, opaqueCell py cells inputs = .ok false → ∀ input ∈ inputs,
      ∃ cell region, cellAt cells input.1 = .ok cell ∧
        cellRegion py cell (fieldTypeOf input.2) = .ok region ∧ region ≠ .unknown
  | [], _, _, hinput => by cases hinput
  | (id, column) :: inputs, h, input, hinput => by
    unfold opaqueCell at h
    obtain ⟨cell, hcell, h⟩ := bind_eq_ok.1 h
    obtain ⟨region, hregion, h⟩ := bind_eq_ok.1 h
    split at h
    · cases h
    · rename_i hne
      rcases List.mem_cons.1 hinput with rfl | hinput
      · exact ⟨cell, region, hcell, hregion, hne⟩
      · exact opaqueCell_false h input hinput

/-- A cell as the analysis reads it, against the comparison that is made. -/
def comparedCell (py : PyText) (id : String) (input cell : Value) : Mece.Condition :=
  ⟨Mece.shorthandConfig (cellCondition py id input cell), cellValue py cell, cellValue2 py cell,
    fieldTypeOf input⟩

/-- No cell accepts more than what is left of it when it is turned into a condition, the columns
    of one field are of one variable, and each field is read in one way. -/
structure RowsFit (py : PyText) (r : Mece.Reading) (inputs : Dict) (rows : List Value) : Prop where
  columns : ∀ i ∈ inputs, ∀ j ∈ inputs, fieldOf py i.1 i.2 = fieldOf py j.1 j.2 →
    variableOf py i.1 i.2 = variableOf py j.1 j.2
  doubles : ∀ row ∈ rows, ∀ cells, rowCells row = .ok cells → ∀ input ∈ inputs, ∀ cell,
    cellAt cells input.1 = .ok cell → ((cell.field "operator").getD .null).IsDouble
  cells : ∀ row ∈ rows, ∀ cells, rowCells row = .ok cells → ∀ input ∈ inputs, ∀ cell,
    cellAt cells input.1 = .ok cell → isWildcard cell = .ok false →
      Mece.Fits py r false true false (comparedCell py input.1 input.2 cell)

def fieldValues (py : PyText) (inputs vars : Dict) (name : String) : Value :=
  match inputs.find? fun input => fieldOf py input.1 input.2 = name with
  | some input => actualOf py vars input
  | none => .null

theorem fieldValues_double (hvars : Doubles vars) (name : String) :
    (fieldValues py inputs vars name).IsDouble := by
  unfold fieldValues
  split
  · exact actualOf_double hvars _
  · intro q hq
    cases hq

theorem fieldValues_eq (hfit : RowsFit py r inputs rows) (hinput : input ∈ inputs) :
    fieldValues py inputs vars (fieldOf py input.1 input.2) = actualOf py vars input := by
  unfold fieldValues
  cases hfind : inputs.find? fun i => fieldOf py i.1 i.2 = fieldOf py input.1 input.2 with
  | none => grind
  | some i =>
    have hfield : fieldOf py i.1 i.2 = fieldOf py input.1 input.2 :=
      of_decide_eq_true (List.find?_some
        (p := fun i : String × Value => decide (fieldOf py i.1 i.2 = fieldOf py input.1 input.2))
        hfind)
    show (vars.lookup _).getD _ = (vars.lookup _).getD _
    rw [hfit.columns i (List.mem_of_find?_eq_some hfind) input hinput hfield]

theorem rowConditions_mem {cells : Value} : ∀ {inputs : Dict} {conds : List Value},
    rowConditions py cells inputs = .ok conds → ∀ cond ∈ conds, ∃ input ∈ inputs, ∃ cell,
      cellAt cells input.1 = .ok cell ∧ isWildcard cell = .ok false ∧
        cond = .dict (cellCondition py input.1 input.2 cell)
  | [], _, h, _, hcond => by
    cases h
    cases hcond
  | (id, column) :: inputs, _, h, cond, hcond => by
    unfold rowConditions at h
    obtain ⟨cell, hcell, h⟩ := bind_eq_ok.1 h
    obtain ⟨wildcard, hw, h⟩ := bind_eq_ok.1 h
    obtain ⟨rest, hrest, h⟩ := bind_eq_ok.1 h
    cases h
    have hlater : cond ∈ rest → ∃ input ∈ (id, column) :: inputs, ∃ cell,
        cellAt cells input.1 = .ok cell ∧ isWildcard cell = .ok false ∧
          cond = .dict (cellCondition py input.1 input.2 cell) := by
      intro hmem
      obtain ⟨input, hinput, hex⟩ := rowConditions_mem hrest cond hmem
      exact ⟨input, List.mem_cons_of_mem _ hinput, hex⟩
    cases wildcard with
    | true => exact hlater hcond
    | false =>
      rcases List.mem_cons.1 hcond with rfl | hcond
      · exact ⟨(id, column), List.mem_cons_self, cell, hcell, hw, rfl⟩
      · exact hlater hcond

theorem conditionHolds_of_cellTest (hpy : py.Reads) {a : String → Value} {id : String}
    {input : Value} {b : Bool} (hw : isWildcard cell = .ok false)
    (hd : ((cell.field "operator").getD .null).IsDouble) (hop : Regional (cellOperator py cell))
    (h : cellTest py search cell (fieldTypeOf input) (a (fieldOf py id input)) = .ok b) :
    Mece.conditionHolds py search a (comparedCell py id input cell) = .ok b := by
  obtain ⟨s, hs⟩ := operator_text hpy hw hd hop
  have hoperator : Mece.operatorOf (Mece.shorthandConfig (cellCondition py id input cell)) =
      cellOperator py cell := by
    unfold cellCondition cellOperator
    rw [hs]
    rfl
  rw [cellTest_eq hw] at h
  unfold Mece.conditionHolds comparedCell
  rw [hoperator]
  exact h

theorem cellTest_of_rowMatches {row cells : Value}
    (h : rowMatches py search inputs vars row = true) (hcells : rowCells row = .ok cells)
    (hinput : input ∈ inputs) (hcell : cellAt cells input.1 = .ok cell) :
    cellTest py search cell (fieldTypeOf input.2) (actualOf py vars input) = .ok true := by
  unfold rowMatches at h
  split at h
  · rename_i t ht
    obtain ⟨-, cells', hcells', htests, -⟩ := evaluateRow_ok ht
    grind -ring -linarith
  · cases h

theorem row_approximated (hpy : py.Reads) {r : Mece.Reading} {inputs vars : Dict}
    (hvars : Doubles vars) {rows : List Value} (hfit : RowsFit py r inputs rows) {row : Value}
    (hrow : row ∈ rows) (hanalysed : rowHasOpaqueCell py inputs row = .ok false) {index : ℕ}
    {rule : Mece.Rule} (hrule : rowToRule py inputs row index = .ok rule) {space : Mece.RuleSpace}
    (hspace : Mece.ruleSpace py rule = .ok space) :
    (∀ b ∈ space.branches, ∀ c ∈ b, Mece.OfKind r c) ∧
      (rowMatches py search inputs vars row = true → ∃ b ∈ space.branches,
        Mece.BranchHolds (Mece.Holds py r (fieldValues py inputs vars)) b) := by
  obtain ⟨cells, hcells, hrule⟩ := bind_eq_ok.1 hrule
  obtain ⟨conds, hconds, hrule⟩ := bind_eq_ok.1 hrule
  cases hrule
  obtain ⟨branches, hbranches, rfl⟩ := map_eq_ok.1 hspace
  have hfitting := @Mece.fits_fitting py search (fieldValues py inputs vars) r hpy
    (fieldValues_double hvars) false (by simp)
  have hregions : ∀ input ∈ inputs, ∃ cell region, cellAt cells input.1 = .ok cell ∧
      cellRegion py cell (fieldTypeOf input.2) = .ok region ∧ region ≠ .unknown := by
    obtain ⟨cells', hcells', hclear⟩ := bind_eq_ok.1 hanalysed
    cases hcells.symm.trans hcells'
    exact opaqueCell_false hclear
  unfold Mece.constraintSpace at hbranches
  split at hbranches
  · cases hbranches
    refine ⟨?_, fun _ => ⟨[], List.mem_singleton_self _, fun _ hc => nomatch hc⟩⟩
    intro b hb c hc
    rw [List.mem_singleton.1 hb] at hc
    cases hc
  · obtain ⟨constraints, hk, hbranches⟩ := bind_eq_ok.1 hbranches
    cases hbranches
    have hcond : ∀ k ∈ constraints.reduceOption, ∃ input ∈ inputs, ∃ cell,
        cellAt cells input.1 = .ok cell ∧ isWildcard cell = .ok false ∧
        Mece.extractConstraint py false (comparedCell py input.1 input.2 cell).config =
          .ok (some k) := by
      intro k hmem
      obtain ⟨cond, hc, hval⟩ := (mapM_mem hk).2 _ (List.reduceOption_mem_iff.1 hmem)
      obtain ⟨input, hinput, cell, hcell, hw, rfl⟩ := rowConditions_mem hconds cond hc
      exact ⟨input, hinput, cell, hcell, hw, hval⟩
    refine ⟨?_, fun hmatch => ⟨_, List.mem_singleton_self _, ?_⟩⟩
    · intro b hb k hmem
      rw [List.mem_singleton.1 hb] at hmem
      obtain ⟨input, hinput, cell, hcell, hw, hextract⟩ := hcond k hmem
      exact (hfitting.shape (hfit.cells row hrow cells hcells input hinput cell hcell hw)
        hextract).ofKind
    · intro k hmem
      obtain ⟨input, hinput, cell, hcell, hw, hextract⟩ := hcond k hmem
      obtain ⟨cell', region, hcell', hregion, hne⟩ := hregions input hinput
      cases hcell.symm.trans hcell'
      have htest : cellTest py search cell (fieldTypeOf input.2)
          (fieldValues py inputs vars (fieldOf py input.1 input.2)) = .ok true := by
        rw [fieldValues_eq hfit hinput]
        exact cellTest_of_rowMatches hmatch hcells hinput hcell
      exact hfitting.above (hfit.cells row hrow cells hcells input hinput cell hcell hw) hextract
        (conditionHolds_of_cellTest hpy hw
          (hfit.doubles row hrow cells hcells input hinput cell hcell)
          (regional_of_region hw hregion hne) htest)

theorem filter_length_le_one {α : Type} {p : α → Bool} {as : List α}
    (h : as.Pairwise fun x y => ¬ (p x = true ∧ p y = true)) : (as.filter p).length ≤ 1 := by
  induction as with
  | nil => exact Nat.zero_le _
  | cons x as ih =>
    obtain ⟨hx, has⟩ := List.pairwise_cons.1 h
    cases hp : p x with
    | false => simp_all
    | true => simp_all

theorem exclusive_of_conflict_free {ds : List Diagnostic}
    (hunique : hitPolicyText py table = "unique")
    (h : meceDiagnostics py table inputs rows = .ok ds)
    (hconflict : hasError .conflict ds = false) (hlen : 2 ≤ rows.length) :
    ∃ rules spaces, (rows.zipIdx.mapM fun row => rowToRule py inputs row.1 row.2) = .ok rules ∧
      rules.mapM (Mece.ruleSpace py) = .ok spaces ∧
      (Mece.pairReport spaces).isMutuallyExclusive = true := by
  obtain ⟨rules, hrules, h⟩ := bind_eq_ok.1 h
  have hlength : rules.length = rows.length := by
    rw [← (mapM_eq_ok.1 hrules).length_eq, List.length_zipIdx]
  rw [if_neg (by rw [List.isEmpty_iff]; rintro rfl; rw [List.length_nil] at hlength; omega)] at h
  obtain ⟨mece, hmece, h⟩ := bind_eq_ok.1 h
  obtain ⟨hasDefault, -, h⟩ := bind_eq_ok.1 h
  obtain ⟨spaces, hspaces, rfl⟩ := Mece.analyzeMece_ok (by omega) hmece
  cases h
  refine ⟨rules, spaces, hrules, hspaces, List.all_eq_true.2 fun d hd => ?_⟩
  -- an overlap would be an error of the table
  have hnot := List.any_eq_false.1 hconflict _ (List.mem_map_of_mem hd)
  rw [hunique] at hnot
  unfold tableDiagnostic at hnot
  grind

theorem rows_exclusive (hpy : py.Reads) (hvars : Doubles vars) (hfit : RowsFit py r inputs rows)
    (hanalysed : ∀ row ∈ rows, rowHasOpaqueCell py inputs row = .ok false)
    {rules : List Mece.Rule} {spaces : List Mece.RuleSpace}
    (hrules : (rows.zipIdx.mapM fun row => rowToRule py inputs row.1 row.2) = .ok rules)
    (hspaces : rules.mapM (Mece.ruleSpace py) = .ok spaces)
    (hme : (Mece.pairReport spaces).isMutuallyExclusive = true) :
    rows.Pairwise fun row row' => ¬ (rowMatches py search inputs vars row = true ∧
      rowMatches py search inputs vars row' = true) := by
  have hspec : ∀ row ∈ rows.zipIdx, ∀ rule, rowToRule py inputs row.1 row.2 = .ok rule →
      ∀ space, Mece.ruleSpace py rule = .ok space → _ := fun row hrow rule hrule space hspace =>
    @row_approximated py search hpy r inputs vars hvars rows hfit row.1
      (List.fst_mem_of_mem_zipIdx hrow) (hanalysed _ (List.fst_mem_of_mem_zipIdx hrow)) row.2
      rule hrule space hspace
  have hkinds : ∀ s ∈ spaces, ∀ b ∈ s.branches, ∀ c ∈ b, Mece.OfKind r c := by
    intro s hs
    obtain ⟨rule, hmem, hspace⟩ := (mapM_mem hspaces).2 s hs
    obtain ⟨row, hrow, hrule⟩ := (mapM_mem hrules).2 rule hmem
    exact (hspec row hrow rule hrule s hspace).1
  -- from the spaces to the rules, and from the rules to the rows
  have hpairs : rules.Pairwise fun rule rule' => ∃ s s', Mece.ruleSpace py rule = .ok s ∧
      Mece.ruleSpace py rule' = .ok s' ∧
      ¬ ((∃ b ∈ s.branches, Mece.BranchHolds (Mece.Holds py r (fieldValues py inputs vars)) b) ∧
        ∃ b ∈ s'.branches, Mece.BranchHolds (Mece.Holds py r (fieldValues py inputs vars)) b) :=
    pairwise_of_forall₂ (mapM_eq_ok.1 hspaces) (Mece.exclusive_of_report hkinds hme)
      fun _ _ _ _ s s' hs hs' hnot => ⟨s, s', hs, hs', hnot⟩
  have hindexed : rows.zipIdx.Pairwise fun row row' =>
      ¬ (rowMatches py search inputs vars row.1 = true ∧
        rowMatches py search inputs vars row'.1 = true) := by
    refine pairwise_of_forall₂ (mapM_eq_ok.1 hrules) hpairs ?_
    rintro row hrow row' hrow' rule rule' hrule hrule' ⟨s, s', hs, hs', hnot⟩ ⟨h, h'⟩
    exact hnot ⟨(hspec row hrow rule hrule s hs).2 h, (hspec row' hrow' rule' hrule' s' hs').2 h'⟩
  rw [← @List.zipIdx_map_fst _ 0 rows]
  exact List.pairwise_map.2 hindexed

/-- A table that is reported free of conflicts is never ambiguous. -/
theorem conflict_free_unambiguous (hpy : py.Reads) (hunique : hitPolicyText py table = "unique")
    (h : analyzeDecisionTable py table = .ok report) (hconflicts : report.hasConflicts = false)
    (hanalysable : report.hasUnanalyzableRows = false) (r : Mece.Reading)
    (hfit : ∀ inputs rows, inputIndex py table = .ok inputs → tableRows table = .ok rows →
      RowsFit py r inputs rows) {vars : Dict} (hvars : Doubles vars) {result : TableResult}
    (hresult : evaluateDecisionTable py search table vars = .ok result) :
    result.ambiguous = false := by
  obtain ⟨inputs, rows, cells, outcomes, unreachable, unknown, mece, hinputs, hrows, -, -, -,
    hunknown, hmece, hreport, hconf, hunan⟩ := analyzeDecisionTable_ok h
  obtain ⟨inputs', rows', trace, outputs, hin, hro, htrace, -, hambiguous⟩ :=
    evaluateDecisionTable_ok hresult
  cases hinputs.symm.trans hin
  cases hrows.symm.trans hro
  have hanalysed : ∀ row ∈ rows, rowHasOpaqueCell py inputs row = .ok false := by
    intro row hrow
    obtain ⟨ds, hds, hrow⟩ := (mapM_mem hunknown).1 row hrow
    obtain ⟨isOpaque, hclear, rfl⟩ := map_eq_ok.1 hrow
    cases isOpaque with
    | false => exact hclear
    | true =>
      have hmem : rowDiagnostic .notAnalyzable .info row ∈ report.diagnostics := by
        rw [hreport]
        exact List.mem_append_left _ (List.mem_append_right _
          (List.mem_flatten.2 ⟨_, hds, List.mem_singleton_self _⟩))
      rw [hunan] at hanalysable
      exact absurd rfl (List.any_eq_false.1 hanalysable _ hmem)
  have hconflict : hasError .conflict mece = false := by
    rw [hconf, hreport] at hconflicts
    unfold hasError at hconflicts ⊢
    rw [List.any_append, Bool.or_eq_false_iff] at hconflicts
    exact hconflicts.2
  have hone : (rows.filter (rowMatches py search inputs vars)).length ≤ 1 := by
    by_cases hlen : 2 ≤ rows.length
    · obtain ⟨rules, spaces, hrules, hspaces, hme⟩ :=
        exclusive_of_conflict_free hunique hmece hconflict hlen
      exact filter_length_le_one (rows_exclusive hpy hvars (hfit inputs rows hinputs hrows)
        hanalysed hrules hspaces hme)
    · exact (List.length_filter_le _ _).trans (by omega)
  grind

end Conflicts

/-! ### Rows that exclude each other, and rows that seem to -/

def cellRow (id : String) (cell : Dict) : Value :=
  .dict [("id", .str id), ("cells", .dict [("x", .dict cell)])]

/-- A table of a numeric column, for rows that must not match together. -/
def uniqueTable (rows : List Value) : Value :=
  .dict [("hit_policy", .str "unique"),
    ("inputs", .list [.dict [("id", .str "x"), ("field_type", .str "number")]]),
    ("rows", .list rows)]

def splitRows : List Value :=
  [cellRow "a" [("operator", .str ">="), ("value", .int 10)],
    cellRow "b" [("operator", .str "<"), ("value", .int 10)]]

def nestedRows : List Value :=
  [cellRow "a" [("operator", .str "between"), ("value", .int 0), ("value2", .int 10)],
    cellRow "b" [("operator", .str "=="), ("value", .int 5)]]

theorem uniqueTable_report {rows : List Value} {p : Report → Bool}
    (h : (analyzeDecisionTable decimalPy (uniqueTable rows)).toOption.any p = true) :
    ∃ report, analyzeDecisionTable decimalPy (uniqueTable rows) = .ok report ∧ p report = true := by
  simp_all [Option.any_eq_true, toOption_eq_some]

theorem uniqueTable_evaluates {rows : List Value} {n : ℤ} {p : TableResult → Bool}
    (h : (evaluateDecisionTable decimalPy (fun _ _ => false) (uniqueTable rows)
      [("x", .int n)]).toOption.any p = true) :
    ∃ r, evaluateDecisionTable decimalPy (fun _ _ => false) (uniqueTable rows) [("x", .int n)] =
      .ok r ∧ p r = true := by simp_all [Option.any_eq_true, toOption_eq_some]

theorem splitRows_fit : ∀ inputs rows, inputIndex decimalPy (uniqueTable splitRows) = .ok inputs →
    tableRows (uniqueTable splitRows) = .ok rows →
    RowsFit decimalPy Mece.numberReading inputs rows := by
  intro inputs rows hinputs hrows
  cases hinputs
  cases hrows
  have hoperator : ∀ (op : String) (value cell : Value), cell = .dict [("operator", .str op), ("value", value)] →
      ((cell.field "operator").getD .null).IsDouble := by
    rintro op value cell rfl q hq
    cases hq
  have hdated : ∀ {op : String} {n : ℤ}, ¬ Mece.Dated (comparedCell decimalPy "x"
      (.dict [("id", .str "x"), ("field_type", .str "number")])
      (.dict [("operator", .str op), ("value", .int n)])) := by
    intro op n hd
    exact absurd (Except.ok.inj hd) (by decide)
  refine ⟨?_, ?_, ?_⟩
  · intro i hi j hj _
    rw [List.mem_singleton.1 hi, List.mem_singleton.1 hj]
  · intro row hrow cells hcells input hinput cell hcell
    rw [List.mem_singleton.1 hinput] at hcell
    rcases List.mem_cons.1 hrow with rfl | hrow
    · cases hcells
      cases hcell
      exact hoperator _ _ _ rfl
    · rw [List.mem_singleton.1 hrow] at hcells
      cases hcells
      cases hcell
      exact hoperator _ _ _ rfl
  · intro row hrow cells hcells input hinput cell hcell _
    rw [List.mem_singleton.1 hinput] at hcell ⊢
    rcases List.mem_cons.1 hrow with rfl | hrow
    · cases hcells
      cases hcell
      refine ⟨rfl, Or.inl rfl, ?_⟩
      exact And.intro (fun h => nomatch h) hdated
    · rw [List.mem_singleton.1 hrow] at hcells
      cases hcells
      cases hcell
      refine ⟨rfl, Or.inl rfl, ?_⟩
      exact And.intro (fun h => nomatch h) hdated

theorem splitRows_unambiguous : ∃ result, evaluateDecisionTable decimalPy (fun _ _ => false)
    (uniqueTable splitRows) [("x", .int 12)] = .ok result ∧ result.matchedRowIds = [.str "a"] ∧
    result.ambiguous = false := by
  obtain ⟨report, hreport, hp⟩ := @uniqueTable_report splitRows
    (fun report => !report.hasConflicts && !report.hasUnanalyzableRows) (by decide +kernel)
  obtain ⟨hconflicts, hanalysable⟩ : report.hasConflicts = false ∧
      report.hasUnanalyzableRows = false := by simpa using hp
  obtain ⟨r, hr, hmatched⟩ := @uniqueTable_evaluates splitRows 12
    (fun r => r.matchedRowIds = [.str "a"]) (by decide +kernel)
  exact ⟨r, hr, of_decide_eq_true hmatched, conflict_free_unambiguous decimalPy_reads
    (by decide +kernel) hreport hconflicts
    hanalysable Mece.numberReading splitRows_fit (doubles_of_int "x" 12) hr⟩

/-- The second bound of a cell is not passed on: the rows are ambiguous, and no conflict is
    reported. -/
theorem nestedRows_ambiguous : ∃ report result,
    hitPolicyText decimalPy (uniqueTable nestedRows) = "unique" ∧
    analyzeDecisionTable decimalPy (uniqueTable nestedRows) = .ok report ∧
    report.hasConflicts = false ∧ report.hasUnanalyzableRows = false ∧
    evaluateDecisionTable decimalPy (fun _ _ => false) (uniqueTable nestedRows)
      [("x", .int 5)] = .ok result ∧ result.ambiguous = true := by
  obtain ⟨report, hreport, hp⟩ := @uniqueTable_report nestedRows
    (fun report => !report.hasConflicts && !report.hasUnanalyzableRows) (by decide +kernel)
  obtain ⟨hconflicts, hanalysable⟩ : report.hasConflicts = false ∧
      report.hasUnanalyzableRows = false := by simpa using hp
  obtain ⟨r, hr, hambiguous⟩ := @uniqueTable_evaluates nestedRows 5
    (fun r => r.ambiguous) (by decide +kernel)
  exact ⟨report, r, rfl, hreport, hconflicts, hanalysable, hr, hambiguous⟩

end RuleMind.DecisionTable
