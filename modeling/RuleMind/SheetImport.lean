/-
  The import of a sheet as a decision table: `build_table` of
  `app/decision_table_import.py`, and what the evaluation makes of the table.

  `str.lower` on the whole of Unicode is a parameter.
-/
import RuleMind.SheetCell

namespace RuleMind.SheetImport
open Text (trimBy)
open SheetCell (Condition parseCell scalar strip)
open DecisionTable (cellTest inputIndex evaluateRow fieldTypeOf variableOf)

/-! ### Columns -/

structure Column where
  header : String
  role : String
  variableId : Option String
  fieldType : Option String
  type : Option String

/-- An input of the table; without a declared type until the rows are read. -/
structure Input where
  id : String
  variableId : String
  name : String
  fieldType : Option String
  deriving DecidableEq

structure Output where
  id : String
  name : String
  type : Option String
  deriving DecidableEq

inductive Kind
  | input
  | output
  deriving DecidableEq

/-- An entry of `binding`. -/
structure Bound where
  header : String
  kind : Kind
  id : String

structure Problem where
  column : Option ℕ
  row : Option ℕ
  header : Option String
  message : String
  deriving DecidableEq

def Problem.sheet (message : String) : Problem := ⟨none, none, none, message⟩

/-- A character of `[a-z0-9]`. -/
def wordChar (c : Char) : Bool := c.isLower || c.isDigit

/-- `re.sub(r"[^a-z0-9]+", "_", …)`; the flag tells whether a run has begun. -/
def joinRuns : Bool → List Char → List Char
  | _, [] => []
  | inRun, c :: cs =>
    if wordChar c then c :: joinRuns false cs
    else if inRun then joinRuns true cs else '_' :: joinRuns true cs

section Import
variable (py : PyText) (lowerText : String → String)

def slug (text : String) : String :=
  let slug := trimBy (· == '_') (joinRuns false (lowerText (strip text)).toList)
  if slug = [] then "col" else String.ofList slug

/-! ### The mapping -/

def Column.name (column : Column) : String := strip column.header

def Column.roleName (column : Column) : String := lower (strip column.role)

/-- `str(column.get("variable_id") or "").strip()`. -/
def Column.variableName (column : Column) : String := strip (column.variableId.getD "")

/-- `str(text or "").strip() or None`. -/
def declared (text : Option String) : Option String :=
  let text := strip (text.getD "")
  if text = "" then none else some text

structure Mapping where
  inputs : List Input
  outputs : List Output
  binding : List Bound
  problems : List Problem

def Mapping.empty : Mapping := ⟨[], [], [], []⟩

def Mapping.problem (m : Mapping) (problem : Problem) : Mapping :=
  { m with problems := m.problems ++ [problem] }

def Mapping.addInput (m : Mapping) (column : Column) : Mapping :=
  let id := "in_" ++ slug lowerText column.name
  { m with
    inputs := m.inputs ++ [⟨id, column.variableName, column.name, declared column.fieldType⟩]
    binding := m.binding ++ [⟨column.name, .input, id⟩] }

def Mapping.addOutput (m : Mapping) (column : Column) : Mapping :=
  let id := "out_" ++ slug lowerText column.name
  { m with
    outputs := m.outputs ++ [⟨id, column.name, declared column.type⟩]
    binding := m.binding ++ [⟨column.name, .output, id⟩] }

/-- The header of a column is bound, once; a column of another role is left out. -/
def Mapping.bind (m : Mapping) (entry : Column × ℕ) : Mapping :=
  let (column, index) := entry
  let header := column.name
  if header = "" then
    m.problem ⟨some index, none, none, "column " ++ (index + 1).repr ++ " has no header"⟩
  else if header ∈ m.binding.map Bound.header then
    m.problem ⟨some index, none, some header, "duplicate column header '" ++ header ++ "'"⟩
  else if column.roleName = "input" then
    if column.variableName = "" then
      m.problem ⟨some index, none, some header,
        "input column '" ++ header ++ "' is not bound to a variable"⟩
    else m.addInput lowerText column
  else if column.roleName = "output" then m.addOutput lowerText column
  else m

def bindColumns (columns : List Column) : Mapping :=
  columns.zipIdx.foldl (Mapping.bind lowerText) .empty

/-! ### Rows -/

def hitPolicies : List String := ["first", "priority", "unique", "collect"]

def validOutcomes : List String := ["approve", "review", "reject", "pass", "fail"]

def maxRows : ℕ := 5000

def maxColumns : ℕ := 60

/-- The ids of the outputs declared as the outcome, each once. -/
def outcomeIds (outputs : List Output) : List String :=
  ((outputs.filter fun output => lower (output.type.getD "none") == "outcome").map Output.id).dedup

/-- A row as it is read: its cells, its outputs, and what is observed of the columns. -/
structure SheetRow where
  cells : Dict
  outputs : Dict
  observed : List (String × Value)
  problems : List Problem

def SheetRow.empty : SheetRow := ⟨[], [], [], []⟩

def cellProblem (index : ℕ) (header message : String) : Problem :=
  ⟨none, some (index + 1), some header,
    "row " ++ (index + 1).repr ++ ", column '" ++ header ++ "': " ++ message⟩

def SheetRow.addCell (r : SheetRow) (index : ℕ) (bound : Bound) (parsed : SheetCell.Parsed) :
    SheetRow :=
  match parsed with
  | .error message => { r with problems := r.problems ++ [cellProblem index bound.header message] }
  | .ok none => r
  | .ok (some c) =>
    { r with
      cells := setKey r.cells bound.id c.toValue
      observed := r.observed ++ [(bound.id, c.value)] }

/-- An output; the outcome is one of those a policy knows, in lower case. -/
def SheetRow.addValue (r : SheetRow) (outcomes : List String) (index : ℕ) (bound : Bound)
    (value : Value) : SheetRow :=
  let outcome := lower (py.str value)
  if bound.id ∈ outcomes ∧ outcome ∉ validOutcomes then
    { r with problems := r.problems ++ [⟨none, some (index + 1), some bound.header,
      "row " ++ (index + 1).repr ++ ": outcome '" ++ py.str value ++
        "' is not one of ['approve', 'fail', 'pass', 'reject', 'review']"⟩] }
  else
    { r with
      outputs := setKey r.outputs bound.id (if bound.id ∈ outcomes then .str outcome else value)
      observed := r.observed ++ [(bound.id, value)] }

/-- `row.get(header)`. -/
def cellOf (row : Dict) (header : String) : Value := (row.lookup header).getD .null

def SheetRow.read (outcomes : List String) (index : ℕ) (row : Dict) (r : SheetRow)
    (bound : Bound) : Option SheetRow :=
  let raw := cellOf row bound.header
  match bound.kind with
  | .input => (parseCell py raw).map (r.addCell index bound)
  | .output =>
    if raw.isNull ∨ strip (py.str raw) = "" then some r
    else (scalar py raw).map (r.addValue py outcomes index bound)

def readRow (binding : List Bound) (outcomes : List String) (entry : Dict × ℕ) : Option SheetRow :=
  binding.foldlM (SheetRow.read py outcomes entry.2 entry.1) .empty

structure BuiltRow where
  id : String
  cells : Dict
  outputs : Dict
  deriving DecidableEq

def buildRow (entry : SheetRow × ℕ) : Option BuiltRow :=
  if entry.1.outputs.isEmpty then none
  else some ⟨"r" ++ (entry.2 + 1).repr, entry.1.cells, entry.1.outputs⟩

def rowProblems (entry : SheetRow × ℕ) : List Problem :=
  entry.1.problems ++
    if entry.1.outputs.isEmpty then
      [⟨none, some (entry.2 + 1), none, "row " ++ (entry.2 + 1).repr ++ " produces no output"⟩]
    else []

/-! ### The table -/

def inferType (values : List Value) : String :=
  let present := values.filter fun v => !DecisionTable.blank (some v)
  if present.isEmpty then "string"
  else if present.all Value.isBool then "boolean"
  else if present.all (fun v => match v with
    | .int _ | .float _ | .inf _ => true
    | _ => false) then "number"
  else "string"

def observedAt (observed : List (String × Value)) (id : String) : List Value :=
  (observed.filter fun entry => entry.1 == id).map Prod.snd

def typed (observed : List (String × Value)) (id : String) (type : Option String) : Option String :=
  some (type.getD (inferType (observedAt observed id)))

structure Table where
  name : String
  description : Option String
  hitPolicy : String
  inputs : List Input
  outputs : List Output
  rows : List BuiltRow
  deriving DecidableEq

def problemIf (failed : Bool) (message : String) : List Problem :=
  if failed then [.sheet message] else []

/-- The problems of a sheet before its rows are read. -/
def headerProblems (hitPolicy : String) (columns : List Column) (rows : List Dict) : List Problem :=
  let m := bindColumns lowerText columns
  problemIf (hitPolicy ∉ hitPolicies) ("hit policy '" ++ hitPolicy ++
      "' is not one of ['collect', 'first', 'priority', 'unique']") ++
    problemIf (maxRows < rows.length) (rows.length.repr ++ " rows exceeds the " ++
      maxRows.repr ++ "-row limit") ++
    problemIf (maxColumns < columns.length) (columns.length.repr ++ " columns exceeds the " ++
      maxColumns.repr ++ "-column limit") ++
    m.problems ++
    problemIf m.inputs.isEmpty "no input columns -- a matrix needs at least one dimension" ++
    problemIf m.outputs.isEmpty "no output columns -- a matrix has to produce something" ++
    problemIf (1 < (outcomeIds m.outputs).length)
      "more than one outcome column; a row can only resolve to one"

def assemble (name : String) (description : Option String) (hitPolicy : String) (m : Mapping)
    (sheet : List SheetRow) : Table :=
  let observed := sheet.flatMap SheetRow.observed
  ⟨name, description, hitPolicy,
    m.inputs.map fun input => { input with fieldType := typed observed input.id input.fieldType },
    m.outputs.map fun output => { output with type := typed observed output.id output.type },
    sheet.zipIdx.filterMap buildRow⟩

/-- `build_table`: the problems, or the table. -/
def buildTable (name : String) (columns : List Column) (rows : List Dict) (hitPolicy : String)
    (description : Option String) : Option (Except (List Problem) Table) := do
  let m := bindColumns lowerText columns
  let sheet ← rows.zipIdx.mapM (readRow py m.binding (outcomeIds m.outputs))
  let problems :=
    headerProblems lowerText hitPolicy columns rows ++ sheet.zipIdx.flatMap rowProblems
  if problems ≠ [] then some (.error problems)
  else if sheet.zipIdx.filterMap buildRow = [] then
    some (.error [.sheet "the sheet has no data rows"])
  else some (.ok (assemble name description hitPolicy m sheet))

def textValue (text : Option String) : Value := (text.map Value.str).getD .null

def Input.toValue (input : Input) : Value :=
  .dict [("id", .str input.id), ("variable_id", .str input.variableId), ("name", .str input.name),
    ("field_type", textValue input.fieldType)]

def Output.toValue (output : Output) : Value :=
  .dict [("id", .str output.id), ("name", .str output.name), ("type", textValue output.type)]

def BuiltRow.toValue (row : BuiltRow) : Value :=
  .dict [("id", .str row.id), ("cells", .dict row.cells), ("outputs", .dict row.outputs)]

def Table.toValue (table : Table) : Value :=
  .dict [("name", .str table.name), ("description", textValue table.description),
    ("hit_policy", .str table.hitPolicy), ("inputs", .list (table.inputs.map Input.toValue)),
    ("outputs", .list (table.outputs.map Output.toValue)),
    ("rows", .list (table.rows.map BuiltRow.toValue)), ("default_row", .null)]

def Accepts (search : RegexSearch) (table : Table) (row : BuiltRow) (vars : Dict) : Prop :=
  ∃ inputs trace, inputIndex py table.toValue = .ok inputs ∧
    evaluateRow py search inputs vars row.toValue = .ok trace ∧ trace.matched = true

/-! ### What a mapping binds -/

def inputColumns (columns : List Column) : List Column :=
  columns.filter fun column => column.roleName == "input"

def Column.inputId (column : Column) : String := "in_" ++ slug lowerText column.name

def Column.input (column : Column) : Input :=
  ⟨column.inputId lowerText, column.variableName, column.name, declared column.fieldType⟩

def outputColumns (columns : List Column) : List Column :=
  columns.filter fun column => column.roleName == "output"

def Column.output (column : Column) : Output :=
  ⟨"out_" ++ slug lowerText column.name, column.name, declared column.type⟩

def Column.bound? (column : Column) : Option Bound :=
  if column.roleName = "input" then some ⟨column.name, .input, column.inputId lowerText⟩
  else if column.roleName = "output" then
    some ⟨column.name, .output, "out_" ++ slug lowerText column.name⟩
  else none

/-- What the columns bind, if none of them has a problem. -/
def bounds (columns : List Column) : List Bound := columns.filterMap (Column.bound? lowerText)

/-- A mapping of the columns that were read, none of them with a problem. -/
structure Mapping.Binds (columns : List Column) (m : Mapping) : Prop where
  inputs : m.inputs = (inputColumns columns).map (Column.input lowerText)
  outputs : m.outputs = (outputColumns columns).map (Column.output lowerText)
  binding : m.binding = bounds lowerText columns
  headers : (m.binding.map Bound.header).Nodup
  variableNames : ∀ column ∈ columns, column.roleName = "input" → column.variableName ≠ ""
  problems : m.problems = []

variable {lowerText}

variable {bound : Bound} {column : Column} {m : Mapping} {index : ℕ} {columns : List Column} {r :
  SheetRow} {outcomes : List String} {row : Dict} {binding : List Bound} {rows : List Dict} {table
  : Table} {name hitPolicy : String} {description : Option String}

theorem bounds_cons_some (h : column.bound? lowerText = some bound) (columns : List Column) :
    bounds lowerText (column :: columns) = bound :: bounds lowerText columns :=
  List.filterMap_cons_some h

theorem bounds_cons_none (h : column.bound? lowerText = none)
    (columns : List Column) : bounds lowerText (column :: columns) = bounds lowerText columns :=
  List.filterMap_cons_none h

theorem Mapping.Binds.bounds {columns : List Column} {m : Mapping} (h : m.Binds lowerText columns) :
    ((bounds lowerText columns).map Bound.header).Nodup := by
  rw [← h.binding]
  exact h.headers

theorem bind_problems {entry : Column × ℕ}
    (h : (m.bind lowerText entry).problems = []) : m.problems = [] := by
  unfold Mapping.bind at h
  dsimp only at h
  split_ifs at h
  · simp [Mapping.problem] at h
  · simp [Mapping.problem] at h
  · simp [Mapping.problem] at h
  · exact h
  · exact h
  · exact h

theorem foldl_problems {entries : List (Column × ℕ)}
    (h : (entries.foldl (Mapping.bind lowerText) m).problems = []) : m.problems = [] := by
  induction entries generalizing m with
  | nil => exact h
  | cons entry entries ih =>
    rw [List.foldl_cons] at h
    exact bind_problems (ih h)

theorem bind_binds
    (hm : m.Binds lowerText columns) (h : (m.bind lowerText (column, index)).problems = []) :
    (m.bind lowerText (column, index)).Binds lowerText (columns ++ [column]) := by
  have hproblem : ∀ problem, (m.problem problem).problems ≠ [] := by simp [Mapping.problem]
  have hvariables : (column.roleName = "input" → column.variableName ≠ "") →
      ∀ c ∈ columns ++ [column], c.roleName = "input" → c.variableName ≠ "" := by
    intro hnew c hc
    rcases List.mem_append.1 hc with hc | hc
    · exact hm.variableNames c hc
    · rw [List.mem_singleton.1 hc]
      exact hnew
  unfold Mapping.bind at h ⊢
  dsimp only at h ⊢
  split_ifs at h ⊢ with hheader hdup hinput hvariable houtput
  · exact absurd h (hproblem _)
  · exact absurd h (hproblem _)
  · exact absurd h (hproblem _)
  · refine ⟨?_, ?_, ?_, ?_, hvariables fun _ => hvariable, hm.problems⟩
    · simp [Mapping.addInput, hm.inputs, inputColumns, Column.input, Column.inputId, hinput]
    · simp [Mapping.addInput, hm.outputs, outputColumns, hinput]
    · simp [Mapping.addInput, bounds, List.filterMap_append, hm.binding, Column.bound?,
        Column.inputId, hinput]
    · simpa [Mapping.addInput, List.nodup_append] using ⟨hm.headers, by simpa using hdup⟩
  · refine ⟨?_, ?_, ?_, ?_, hvariables fun h => absurd h hinput, hm.problems⟩
    · simp [Mapping.addOutput, hm.inputs, inputColumns, hinput]
    · simp [Mapping.addOutput, hm.outputs, outputColumns, Column.output, houtput]
    · simp [Mapping.addOutput, bounds, List.filterMap_append, hm.binding, Column.bound?, houtput]
    · simpa [Mapping.addOutput, List.nodup_append] using ⟨hm.headers, by simpa using hdup⟩
  · refine ⟨?_, ?_, ?_, hm.headers, hvariables fun h => absurd h hinput, hm.problems⟩
    · simp [hm.inputs, inputColumns, hinput]
    · simp [hm.outputs, outputColumns, houtput]
    · simp [bounds, List.filterMap_append, hm.binding, Column.bound?, hinput, houtput]

theorem bindColumns_binds (h : (bindColumns lowerText columns).problems = []) :
    (bindColumns lowerText columns).Binds lowerText columns := by
  have hrun : ∀ (entries : List (Column × ℕ)) (before : List Column) (m : Mapping),
      m.Binds lowerText before → (entries.foldl (Mapping.bind lowerText) m).problems = [] →
      (entries.foldl (Mapping.bind lowerText) m).Binds lowerText
        (before ++ entries.map Prod.fst) := by
    intro entries
    induction entries with
    | nil =>
      intro before m hm _
      simpa using hm
    | cons entry entries ih =>
      intro before m hm h
      obtain ⟨column, index⟩ := entry
      rw [List.foldl_cons] at h ⊢
      have := ih (before ++ [column]) _ (bind_binds hm (foldl_problems h)) h
      rwa [List.append_assoc] at this
  have hempty : Mapping.empty.Binds lowerText [] := ⟨rfl, rfl, rfl, List.nodup_nil, by simp, rfl⟩
  have := hrun columns.zipIdx [] .empty hempty h
  rwa [List.zipIdx_map_fst] at this

/-! ### What a row stores -/

/-- The condition a header of a row puts under a column. -/
def conditionAt (row : Dict) (id : String) (bound : Bound) : Option Condition :=
  if bound.kind = .input ∧ bound.id = id then
    ((parseCell py (cellOf row bound.header)).bind Except.toOption).join
  else none

/-- The condition a row stores under a column: the last of its headers. -/
def stored (binding : List Bound) (row : Dict) (id : String) : Option Condition :=
  (binding.filterMap (conditionAt py row id)).getLast?

variable {py}

theorem addCell_ok {parsed : SheetCell.Parsed} (h : (r.addCell index bound parsed).problems = []) :
    r.problems = [] ∧ ∃ condition, parsed = .ok condition ∧
      ∀ id, (r.addCell index bound parsed).cells.lookup id =
        ((if bound.id = id then condition else none).map Condition.toValue).or
          (r.cells.lookup id) := by
  cases parsed with
  | error message => simp [SheetRow.addCell] at h
  | ok condition =>
    cases condition with
    | none => exact ⟨h, none, rfl, by simp [SheetRow.addCell]⟩
    | some c =>
      refine ⟨h, some c, rfl, fun id => ?_⟩
      by_cases hid : bound.id = id
      · subst hid
        simp [SheetRow.addCell, lookup_setKey]
      · simp [SheetRow.addCell, lookup_setKey, hid, Ne.symm hid]

theorem addValue_ok {value : Value} (h : (r.addValue py outcomes index bound value).problems = []) :
    r.problems = [] ∧ (r.addValue py outcomes index bound value).cells = r.cells := by
  unfold SheetRow.addValue at h ⊢
  dsimp only at h ⊢
  split at h
  · simp at h
  simp_all [if_neg]

variable {r' : SheetRow} {sheet : List SheetRow} {inputs : List Input} {vars : Dict} {id : String}
  {c : Condition}

theorem read_ok (h : r.read py outcomes index row bound = some r') (hr : r'.problems = []) :
    r.problems = [] ∧
      (bound.kind = .input → ∃ parsed, parseCell py (cellOf row bound.header) = some (.ok parsed)) ∧
      ∀ id, r'.cells.lookup id =
        ((conditionAt py row id bound).map Condition.toValue).or (r.cells.lookup id) := by
  obtain ⟨header, kind, name⟩ := bound
  cases kind with
  | input =>
    obtain ⟨parsed, hparsed, rfl⟩ := Option.map_eq_some_iff.1 h
    obtain ⟨hr0, condition, rfl, hcells⟩ := addCell_ok hr
    simp_all [conditionAt, Except.toOption]
  | output =>
    have hnone : ∀ id, conditionAt py row id ⟨header, .output, name⟩ = none := by simp [conditionAt]
    simp only [SheetRow.read] at h
    split_ifs at h
    · cases h
      exact ⟨hr, by simp, by simp [hnone]⟩
    · obtain ⟨value, -, rfl⟩ := Option.map_eq_some_iff.1 h
      grind [addValue_ok]

theorem foldlM_read_ok (h : binding.foldlM (SheetRow.read py outcomes index row) r = some r')
    (hr : r'.problems = []) :
    r.problems = [] ∧
      (∀ bound ∈ binding, bound.kind = .input →
        ∃ parsed, parseCell py (cellOf row bound.header) = some (.ok parsed)) ∧
      ∀ id, r'.cells.lookup id =
        ((stored py binding row id).map Condition.toValue).or (r.cells.lookup id) := by
  induction binding generalizing r with
  | nil =>
    cases h
    exact ⟨hr, by simp, by simp [stored]⟩
  | cons bound binding ih =>
    rw [List.foldlM_cons] at h
    obtain ⟨r1, hread, h⟩ := Option.bind_eq_some_iff.1 h
    obtain ⟨hr1, hparsed, hcells⟩ := ih h
    obtain ⟨hr0, hhead, hcell⟩ := read_ok hread hr1
    refine ⟨hr0, ?_, fun id => ?_⟩
    · intro b hb
      rcases List.mem_cons.1 hb with rfl | hb
      · exact hhead
      · exact hparsed b hb
    · rw [hcells id, hcell id, ← Option.or_assoc]
      congr 1
      cases hc : conditionAt py row id bound with
      | none => simp [stored, hc]
      | some c =>
        cases hlast : (binding.filterMap (conditionAt py row id)).getLast? with
        | none =>
          have hnil := List.getLast?_eq_none_iff.1 hlast
          simp [stored, hc, hnil]
        | some d => simp [stored, hc, hlast, List.getLast?_cons]

theorem readRow_ok (h : readRow py binding outcomes (row, index) = some r) (hr : r.problems = []) :
    (∀ bound ∈ binding, bound.kind = .input →
      ∃ parsed, parseCell py (cellOf row bound.header) = some (.ok parsed)) ∧
      ∀ id, r.cells.lookup id = (stored py binding row id).map Condition.toValue := by
  obtain ⟨-, hparsed, hcells⟩ := foldlM_read_ok h hr
  refine ⟨hparsed, fun id => ?_⟩
  rw [hcells id]
  exact Option.or_none

/-! ### The rows of a table -/

/-- A row of the table holds what was read of the row of the sheet. -/
def BuiltFrom (py : PyText) (binding : List Bound) (outcomes : List String) (row : Dict)
    (built : BuiltRow) : Prop :=
  ∃ index r, readRow py binding outcomes (row, index) = some r ∧ r.problems = [] ∧
    built.cells = r.cells

theorem buildRow_of_no_problem (h : rowProblems (r, index) = []) :
    r.problems = [] ∧ ∃ built, buildRow (r, index) = some built ∧ built.cells = r.cells := by
  unfold rowProblems at h
  obtain ⟨hr, houtputs⟩ := List.append_eq_nil_iff.1 h
  split_ifs at houtputs with hempty
  exact ⟨hr, _, if_neg hempty, rfl⟩

theorem rows_built {k : ℕ}
    (hsheet : (rows.zipIdx k).mapM (readRow py binding outcomes) = some sheet)
    (h : (sheet.zipIdx k).flatMap rowProblems = []) :
    List.Forall₂ (BuiltFrom py binding outcomes) rows ((sheet.zipIdx k).filterMap buildRow) := by
  induction rows generalizing sheet k with
  | nil =>
    cases hsheet
    exact .nil
  | cons row rows ih =>
    rw [List.zipIdx_cons, List.mapM_cons] at hsheet
    obtain ⟨r, hread, hsheet⟩ := Option.bind_eq_some_iff.1 hsheet
    obtain ⟨rest, hrest, hsheet⟩ := Option.bind_eq_some_iff.1 hsheet
    cases hsheet
    rw [List.zipIdx_cons, List.flatMap_cons] at h
    obtain ⟨hhead, htail⟩ := List.append_eq_nil_iff.1 h
    obtain ⟨hr, built, hbuilt, hcells⟩ := buildRow_of_no_problem hhead
    rw [List.zipIdx_cons, List.filterMap_cons_some hbuilt]
    exact .cons ⟨k, r, hread, hr, hcells⟩ (ih hrest htail)

theorem buildTable_ok

    (h : buildTable py lowerText name columns rows hitPolicy description = some (.ok table)) :
    headerProblems lowerText hitPolicy columns rows = [] ∧
      ∃ sheet, table = assemble name description hitPolicy (bindColumns lowerText columns) sheet ∧
        List.Forall₂ (BuiltFrom py (bindColumns lowerText columns).binding
          (outcomeIds (bindColumns lowerText columns).outputs)) rows table.rows := by
  obtain ⟨sheet, hsheet, h⟩ := Option.bind_eq_some_iff.1 h
  dsimp only at h
  split_ifs at h with hproblems hrows
  · cases h
  · cases h
  · cases h
    obtain ⟨hheader, hbody⟩ := List.append_eq_nil_iff.1 (not_not.1 hproblems)
    exact ⟨hheader, sheet, rfl, rows_built hsheet hbody⟩

theorem buildTable_binds

    (h : buildTable py lowerText name columns rows hitPolicy description = some (.ok table)) :
    (bindColumns lowerText columns).Binds lowerText columns ∧
      (bindColumns lowerText columns).outputs ≠ [] := by
  obtain ⟨hheader, -⟩ := buildTable_ok h
  simp only [headerProblems, List.append_eq_nil_iff] at hheader
  obtain ⟨⟨⟨⟨-, hproblems⟩, -⟩, houtputs⟩, -⟩ := hheader
  refine ⟨bindColumns_binds hproblems, fun hnil => ?_⟩
  rw [hnil] at houtputs
  cases houtputs

theorem buildTable_of_no_problem

    (hsheet : rows.zipIdx.mapM (readRow py (bindColumns lowerText columns).binding
      (outcomeIds (bindColumns lowerText columns).outputs)) = some sheet)
    (hheader : headerProblems lowerText hitPolicy columns rows = [])
    (hrows : sheet.zipIdx.flatMap rowProblems = [])
    (hbuilt : sheet.zipIdx.filterMap buildRow ≠ []) :
    buildTable py lowerText name columns rows hitPolicy description =
      some (.ok (assemble name description hitPolicy (bindColumns lowerText columns) sheet)) := by
  refine Option.bind_eq_some_iff.2 ⟨sheet, hsheet, ?_⟩
  grind

/-! ### The evaluation of the rows -/

def columnIndex (inputs : List Input) : Dict :=
  inputs.foldl (fun index input => setKey index input.id input.toValue) []

theorem inputIndex_toValue (table : Table) :
    inputIndex py table.toValue = .ok (columnIndex table.inputs) := by
  have hrun : ∀ (inputs : List Input) (index : Dict),
      (inputs.map Input.toValue).foldlM (DecisionTable.addInput py) index =
        .ok (inputs.foldl (fun index input => setKey index input.id input.toValue) index) := by
    intro inputs
    induction inputs with
    | nil => exact fun index => rfl
    | cons input inputs ih => exact fun index => ih _
  exact hrun table.inputs []

theorem mem_columnIndex {entry : String × Value}
    (h : entry ∈ columnIndex inputs) : ∃ input ∈ inputs, entry = (input.id, input.toValue) := by
  have hrun : ∀ (inputs : List Input) (index : Dict),
      entry ∈ inputs.foldl (fun index input => setKey index input.id input.toValue) index →
        entry ∈ index ∨ ∃ input ∈ inputs, entry = (input.id, input.toValue) := by
    intro inputs
    induction inputs with
    | nil => exact fun index h => .inl h
    | cons input inputs ih =>
      intro index h
      rcases ih _ h with h | ⟨i, hi, heq⟩
      · grind [mem_setKey]
      · exact .inr ⟨i, List.mem_cons_of_mem _ hi, heq⟩
  rcases hrun inputs [] h with h | h
  · cases h
  · exact h

theorem columnIndex_mem (hids : (inputs.map Input.id).Nodup) {input : Input}
    (h : input ∈ inputs) : (input.id, input.toValue) ∈ columnIndex inputs := by
  have hrun : ∀ (inputs : List Input) (index : Dict), (inputs.map Input.id).Nodup →
      (∀ i ∈ inputs, i.id ∉ index.map Prod.fst) →
      inputs.foldl (fun index input => setKey index input.id input.toValue) index =
        index ++ inputs.map fun i => (i.id, i.toValue) := by
    intro inputs
    induction inputs with
    | nil => simp
    | cons i inputs ih =>
      intro index hids hnew
      obtain ⟨hi, hids⟩ := List.nodup_cons.1 hids
      rw [List.foldl_cons, setKey_new (hnew i List.mem_cons_self), ih _ hids, List.map_cons,
        List.append_assoc]
      · rfl
      grind
  rw [columnIndex, hrun inputs [] hids (by simp), List.nil_append]
  exact List.mem_map.2 ⟨input, h, rfl⟩

variable {search : RegexSearch}

theorem rowCells_toValue (row : BuiltRow) :
    DecisionTable.rowCells row.toValue = .ok (.dict row.cells) := by
  have hcells : Value.orElse (some (.dict row.cells)) (.dict []) = .dict row.cells := by
    cases row.cells with
    | nil => rfl
    | cons kv kvs => rfl
  exact congrArg Except.ok hcells

theorem accepts_iff {row : BuiltRow} :
    Accepts py search table row vars ↔ ∀ input ∈ columnIndex table.inputs,
      cellTest py search ((row.cells.lookup input.1).getD .null) (fieldTypeOf input.2)
        (DecisionTable.actualOf py vars input) = .ok true := by
  constructor
  · rintro ⟨inputs, trace, hinputs, heval, hmatched⟩
    rw [inputIndex_toValue] at hinputs
    cases hinputs
    obtain ⟨-, cells, hcells, htests, -⟩ := DecisionTable.evaluateRow_ok heval
    rw [rowCells_toValue] at hcells
    cases hcells
    intro input hinput
    obtain ⟨cell, b, hcell, htest, hb⟩ := htests input hinput
    cases hcell
    rw [← hb hmatched]
    exact htest
  · intro h
    have hcell : ∀ input ∈ columnIndex table.inputs, ∃ t,
        DecisionTable.evaluateCell py search vars (.dict row.cells) input = .ok t := by
      intro input hinput
      have htest := h input hinput
      obtain ⟨wildcard, hwildcard, -⟩ := bind_eq_ok.1 htest
      exact ⟨_, bind_eq_ok.2 ⟨_, rfl, bind_eq_ok.2 ⟨wildcard, hwildcard,
        bind_eq_ok.2 ⟨true, htest, rfl⟩⟩⟩⟩
    obtain ⟨trace, htrace⟩ := mapM_exists hcell
    have heval : evaluateRow py search (columnIndex table.inputs) vars row.toValue =
        .ok ⟨row.toValue, trace, trace.all DecisionTable.CellTrace.passed⟩ :=
      bind_eq_ok.2 ⟨_, rowCells_toValue row, bind_eq_ok.2 ⟨trace, htrace, rfl⟩⟩
    refine ⟨_, _, inputIndex_toValue table, heval, ?_⟩
    obtain ⟨-, cells, hcells, -, hall⟩ := DecisionTable.evaluateRow_ok heval
    rw [rowCells_toValue] at hcells
    cases hcells
    refine hall fun input hinput cell b hcell htest => ?_
    cases hcell
    grind

theorem conditionAt_legible (h : conditionAt py row id bound = some c) : c.Legible py := by
  unfold conditionAt at h
  split_ifs at h
  obtain ⟨parsed, hparsed, hc⟩ := Option.bind_eq_some_iff.1 (Option.join_eq_some_iff.1 h)
  have hok := toOption_eq_some.1 hc
  subst hok
  exact SheetCell.parseCell_legible py _ c hparsed

theorem stored_legible (h : stored py binding row id = some c) : c.Legible py := by
  obtain ⟨bound, -, hc⟩ := List.mem_filterMap.1 (List.mem_of_getLast? h)
  exact conditionAt_legible hc

theorem accepts_stored {built : BuiltRow} (hbuilt : BuiltFrom py binding outcomes row built) :
    Accepts py search table built vars ↔ ∀ input ∈ columnIndex table.inputs, ∀ c,
      stored py binding row input.1 = some c → c.holds py search (fieldTypeOf input.2)
        (DecisionTable.actualOf py vars input) = .ok true := by
  obtain ⟨index, r, hread, hr, hcells⟩ := hbuilt
  obtain ⟨-, hlookup⟩ := readRow_ok hread hr
  rw [accepts_iff, hcells]
  refine forall₂_congr fun input _ => ?_
  rw [hlookup]
  cases hstored : stored py binding row input.1 with
  | none => simpa using DecisionTable.cellTest_of_wildcard rfl
  | some c => grind [SheetCell.cellTest_toValue, stored_legible]

end Import
end RuleMind.SheetImport
