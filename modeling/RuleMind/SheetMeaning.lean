/-
  When the table made of a sheet means what the sheet says.
-/
import RuleMind.SheetImport

namespace RuleMind.SheetImport
open SheetCell (Condition parseCell scalar strip)
open DecisionTable (fieldTypeOf actualOf evaluateRow RowTrace)

section Meaning
variable (py : PyText) (lowerText : String → String) (search : RegexSearch)

/-- The cell of the sheet under a column lets the variables pass: it is a wildcard, or its
    condition holds of the variable under the type of the column. -/
def CellPasses (table : Table) (row vars : Dict) (column : Column) : Prop :=
  ∃ input ∈ table.inputs, input.name = column.name ∧
    (parseCell py (cellOf row column.header) = some (.ok none) ∨
      ∃ c, parseCell py (cellOf row column.header) = some (.ok (some c)) ∧
        c.holds py search (textValue input.fieldType)
          ((vars.lookup column.variableName).getD .null) = .ok true)

/-- Every row of the table accepts what every input column of the sheet lets pass. -/
def MeansSheet (columns : List Column) (rows : List Dict) (table : Table) : Prop :=
  List.Forall₂ (fun row built => ∀ vars : Dict, Accepts py search table built vars ↔
    ∀ column ∈ columns, column.roleName = "input" → CellPasses py search table row vars column)
    rows table.rows

/-- No two input columns have one slug, and no header of one has spaces around it. -/
structure Separate (columns : List Column) : Prop where
  slugs : ((inputColumns columns).map fun column => slug lowerText column.name).Nodup
  headers : ∀ column ∈ inputColumns columns, column.name = column.header

/-! ### The input columns of a table -/

/-- The condition of a row under an input column, looked up as the import does. -/
def conditionOf (row : Dict) (column : Column) : Option Condition :=
  ((parseCell py (cellOf row column.name)).bind Except.toOption).join

variable {py lowerText search}

variable {columns : List Column} {column : Column}

theorem mem_inputColumns :
    column ∈ inputColumns columns ↔ column ∈ columns ∧ column.roleName = "input" := by
  simp [inputColumns]

theorem inputColumns_cons_input (h : column.roleName = "input")
    (columns : List Column) : inputColumns (column :: columns) = column :: inputColumns columns :=
  List.filter_cons_of_pos (by simpa using h)

theorem inputColumns_cons_other (h : column.roleName ≠ "input")
    (columns : List Column) : inputColumns (column :: columns) = inputColumns columns :=
  List.filter_cons_of_neg (by simpa using h)

theorem names_sublist (columns : List Column) :
    List.Sublist ((inputColumns columns).map Column.name)
      ((bounds lowerText columns).map Bound.header) := by
  induction columns with
  | nil => exact .slnil
  | cons column columns ih =>
    by_cases hinput : column.roleName = "input"
    · have hbound : column.bound? lowerText =
          some ⟨column.name, .input, column.inputId lowerText⟩ := if_pos hinput
      simp_all [inputColumns_cons_input, bounds_cons_some]
    · rw [inputColumns_cons_other hinput]
      cases hbound : column.bound? lowerText with
      | none =>
        rw [bounds_cons_none hbound]
        exact ih
      | some bound =>
        rw [bounds_cons_some hbound]
        exact ih.cons _

theorem conditions_at (row : Dict) (id : String) (columns : List Column) :
    (bounds lowerText columns).filterMap (conditionAt py row id) =
      ((inputColumns columns).filter fun column => column.inputId lowerText == id).filterMap
        (conditionOf py row) := by
  induction columns with
  | nil => rfl
  | cons column columns ih =>
    by_cases hinput : column.roleName = "input"
    · have hbound : column.bound? lowerText =
          some ⟨column.name, .input, column.inputId lowerText⟩ := if_pos hinput
      rw [inputColumns_cons_input hinput, bounds_cons_some hbound]
      by_cases hid : column.inputId lowerText = id
      · have hcondition : conditionAt py row id ⟨column.name, .input, column.inputId lowerText⟩ =
            conditionOf py row column := if_pos ⟨rfl, hid⟩
        rw [List.filter_cons_of_pos (by simpa using hid), List.filterMap_cons, List.filterMap_cons,
          hcondition, ih]
      simp_all [conditionAt]
    · rw [inputColumns_cons_other hinput, ← ih]
      cases hbound : column.bound? lowerText with
      | none => rw [bounds_cons_none hbound]
      | some bound =>
        have hkind : bound.kind ≠ .input := by
          unfold Column.bound? at hbound
          rw [if_neg hinput] at hbound
          split_ifs at hbound
          cases hbound
          simp
        simp_all [conditionAt, bounds_cons_some]

/-- What an accepted sheet makes of its input columns. -/
structure Built (py : PyText) (lowerText : String → String) (columns : List Column)
    (rows : List Dict) (table : Table) (input : Column → Input) : Prop where
  names : ((inputColumns columns).map Column.name).Nodup
  variableNames : ∀ column ∈ inputColumns columns, column.variableName ≠ ""
  inputs : table.inputs = (inputColumns columns).map input
  ids : ∀ column, (input column).id = column.inputId lowerText
  inputNames : ∀ column, (input column).name = column.name
  inputVariables : ∀ column, (input column).variableId = column.variableName
  types : ∀ column, ∃ type, (input column).fieldType = some type ∧ type ≠ ""
  rows : ∃ outcomes, List.Forall₂ (BuiltFrom py (bounds lowerText columns) outcomes) rows table.rows

theorem inferType_ne (values : List Value) : inferType values ≠ "" := by
  unfold inferType
  dsimp only
  split_ifs <;> decide

theorem buildTable_built {name hitPolicy : String} {description : Option String}
    {rows : List Dict} {table : Table}
    (h : buildTable py lowerText name columns rows hitPolicy description = some (.ok table)) :
    ∃ input, Built py lowerText columns rows table input := by
  obtain ⟨hbinds, -⟩ := buildTable_binds h
  obtain ⟨-, sheet, rfl, hrows⟩ := buildTable_ok h
  refine ⟨fun column => { column.input lowerText with
    fieldType := typed (sheet.flatMap SheetRow.observed) (column.inputId lowerText)
      (declared column.fieldType) }, ?_⟩
  rw [hbinds.binding] at hrows
  refine ⟨?_, ?_, ?_, fun _ => rfl, fun _ => rfl, fun _ => rfl, fun column => ⟨_, rfl, ?_⟩,
    _, hrows⟩
  · exact hbinds.bounds.sublist (names_sublist columns)
  · intro column hcolumn
    obtain ⟨hmem, hinput⟩ := mem_inputColumns.1 hcolumn
    exact hbinds.variableNames column hmem hinput
  · show (bindColumns lowerText columns).inputs.map _ = _
    rw [hbinds.inputs, List.map_map]
    rfl
  grind [declared, inferType_ne]

/-! ### Sheets with their columns apart -/

theorem inputId_nodup
    (h : ((inputColumns columns).map fun column => slug lowerText column.name).Nodup) :
    ((inputColumns columns).map (Column.inputId lowerText)).Nodup := by
  have hinj : Function.Injective fun slug : String => "in_" ++ slug := by
    intro a b hab
    simpa using hab
  have := h.map hinj
  rwa [List.map_map] at this

theorem stored_of_nodup {row : Dict}
    (hids : ((inputColumns columns).map (Column.inputId lowerText)).Nodup)
    (h : column ∈ inputColumns columns) :
    stored py (bounds lowerText columns) row (column.inputId lowerText) =
      conditionOf py row column := by
  rw [stored, conditions_at]
  set same := (inputColumns columns).filter fun c => c.inputId lowerText == column.inputId lowerText
  have hsame : ∀ c ∈ same, c = column := by
    intro c hc
    obtain ⟨hc, hid⟩ := List.mem_filter.1 hc
    exact List.inj_on_of_nodup_map hids hc h (by simpa using hid)
  have hmem : column ∈ same := List.mem_filter.2 ⟨h, by simp⟩
  cases hlast : (same.filterMap (conditionOf py row)).getLast? with
  | none => grind
  | some c =>
    obtain ⟨d, hd, hc⟩ := List.mem_filterMap.1 (List.mem_of_getLast? hlast)
    rw [← hsame d hd, hc]

section Rows
variable {columns : List Column} {rows : List Dict} {table : Table} {input : Column → Input}

theorem Built.entry (h : Built py lowerText columns rows table input) {column : Column}
    (hcolumn : column ∈ inputColumns columns) (vars : Dict) :
    fieldTypeOf (input column).toValue = textValue (input column).fieldType ∧
      actualOf py vars ((input column).id, (input column).toValue) =
        (vars.lookup column.variableName).getD .null := by
  obtain ⟨type, htype, hne⟩ := h.types column
  have hvariable : (Value.str column.variableName).truthy = true := by
    simpa [Value.truthy] using h.variableNames column hcolumn
  have htext : (Value.str type).truthy = true := by simpa [Value.truthy] using hne
  constructor
  · have hfield : (input column).toValue.field "field_type" = some (.str type) := by
      show some (textValue (input column).fieldType) = _
      rw [htype]
      rfl
    rw [htype]
    exact Value.orElse_of_any hfield htext
  · have hname : DecisionTable.variableOf py (input column).id (input column).toValue =
        column.variableName := by
      have hfield : (input column).toValue.field "variable_id" =
          some (.str column.variableName) := by
        rw [← h.inputVariables column]
        rfl
      exact congrArg py.str (Value.orElse_of_any hfield hvariable)
    rw [actualOf, hname]

theorem Built.passes_iff (h : Built py lowerText columns rows table input) {column : Column}
    (hcolumn : column ∈ inputColumns columns) {row vars : Dict} :
    CellPasses py search table row vars column ↔
      parseCell py (cellOf row column.header) = some (.ok none) ∨
        ∃ c, parseCell py (cellOf row column.header) = some (.ok (some c)) ∧
          c.holds py search (textValue (input column).fieldType)
            ((vars.lookup column.variableName).getD .null) = .ok true := by
  constructor
  · rintro ⟨i, hi, hname, hpass⟩
    rw [h.inputs] at hi
    obtain ⟨other, hother, rfl⟩ := List.mem_map.1 hi
    rw [h.inputNames] at hname
    obtain rfl := List.inj_on_of_nodup_map h.names hother hcolumn hname
    exact hpass
  · intro hpass
    refine ⟨input column, ?_, h.inputNames column, hpass⟩
    rw [h.inputs]
    exact List.mem_map_of_mem hcolumn

theorem Built.accepts_iff_cells (h : Built py lowerText columns rows table input)
    (hseparate : Separate lowerText columns) {outcomes : List String} {row : Dict}
    {built : BuiltRow}
    (hbuilt : BuiltFrom py (bounds lowerText columns) outcomes row built)
    {vars : Dict} : Accepts py search table built vars ↔
      ∀ column ∈ columns, column.roleName = "input" →
        CellPasses py search table row vars column := by
  have hids := inputId_nodup hseparate.slugs
  have htableIds : (table.inputs.map Input.id).Nodup := by
    have hmap : table.inputs.map Input.id =
        (inputColumns columns).map (Column.inputId lowerText) := by
      rw [h.inputs, List.map_map]
      exact List.map_congr_left fun column _ => h.ids column
    rw [hmap]
    exact hids
  rw [accepts_stored hbuilt]
  constructor
  · intro haccepts column hmem hinput
    have hcolumn := mem_inputColumns.2 ⟨hmem, hinput⟩
    rw [h.passes_iff hcolumn, ← hseparate.headers column hcolumn]
    obtain ⟨index, r, hread, hr, -⟩ := hbuilt
    obtain ⟨parsed, hparsed⟩ := (readRow_ok hread hr).1
      ⟨column.name, .input, column.inputId lowerText⟩
      (List.mem_filterMap.2 ⟨column, hmem, if_pos hinput⟩) rfl
    dsimp only at hparsed
    cases parsed with
    | none => exact .inl hparsed
    | some c =>
      refine .inr ⟨c, hparsed, ?_⟩
      have hentry := columnIndex_mem htableIds (by
        rw [h.inputs]
        exact List.mem_map_of_mem hcolumn)
      have hholds := haccepts _ hentry c (by
        show stored py _ row (input column).id = some c
        rw [h.ids, stored_of_nodup hids hcolumn]
        simp [conditionOf, hparsed, Except.toOption])
      obtain ⟨htype, hactual⟩ := h.entry hcolumn vars
      simp_all
  · intro hcells entry hentry c hc
    obtain ⟨i, hi, rfl⟩ := mem_columnIndex hentry
    rw [h.inputs] at hi
    obtain ⟨column, hcolumn, rfl⟩ := List.mem_map.1 hi
    obtain ⟨hmem, hinput⟩ := mem_inputColumns.1 hcolumn
    obtain ⟨htype, hactual⟩ := h.entry hcolumn vars
    rw [hactual, htype]
    dsimp only at hc
    rw [h.ids, stored_of_nodup hids hcolumn] at hc
    obtain ⟨parsed, hparsed, hok⟩ := Option.bind_eq_some_iff.1 (Option.join_eq_some_iff.1 hc)
    have hok := toOption_eq_some.1 hok
    subst hok
    have hpasses := hcells column hmem hinput
    rw [h.passes_iff hcolumn, ← hseparate.headers column hcolumn, hparsed] at hpasses
    simp_all

theorem Built.means (h : Built py lowerText columns rows table input)
    (hseparate : Separate lowerText columns) : MeansSheet py search columns rows table := by
  obtain ⟨outcomes, hrows⟩ := h.rows
  exact hrows.imp fun _ _ hbuilt _ => h.accepts_iff_cells hseparate hbuilt

end Rows

/-! ### Cells of two texts -/

variable {cs : List Char} {text : String} {bound : Bound}

theorem no_bound (h : ∀ n, SheetCell.separator ((cs.drop (n + 1)).dropWhile pySpace) = none)
    (p : Char → Bool) (f : ℕ → List Char → Option (List Char × List Char)) :
    ((List.range (cs.takeWhile p).length).reverse.findSome? fun n =>
      (SheetCell.separator (((cs.takeWhile p).drop (n + 1) ++ cs.dropWhile p).dropWhile
        pySpace)).bind (f n)) = none := by
  rw [List.findSome?_eq_none_iff]
  intro n hn
  have hlt : n + 1 ≤ (cs.takeWhile p).length := Nat.succ_le_of_lt (by simpa using hn)
  rw [← List.drop_append_of_le_length hlt, List.takeWhile_append_dropWhile, h n]
  rfl

theorem no_range (h : cs = ['a', '|', 'b'] ∨ cs = ['c', '|', 'd']) :
    SheetCell.betweenMatch py cs = none := by
  have hseparator : ∀ n, SheetCell.separator ((cs.drop (n + 1)).dropWhile pySpace) = none := by
    rintro (_ | _ | n)
    · rcases h with rfl | rfl <;> rfl
    · rcases h with rfl | rfl <;> rfl
    · rcases h with rfl | rfl <;> simp [SheetCell.separator]
  rcases h with rfl | rfl
  · exact no_bound hseparator (SheetCell.boundChar py) _
  · exact no_bound hseparator (SheetCell.boundChar py) _

theorem scalarText_word (h : text ∈ ["a", "b", "c", "d", "approve"]) :
    SheetCell.scalarText py text = some (.str text) ∧ py.float text = none := by
  have hall : ∀ text ∈ ["a", "b", "c", "d", "approve"],
      (lower text ∉ ["true", "yes"] ∧ lower text ∉ ["false", "no"]) ∧
      (text.toList.all fun c => c.toNat < 127 ∧ c ≠ '_' ∧ Text.isSpace c = false) = true ∧
      Text.readFloat text.toList = none := by decide
  obtain ⟨⟨htrue, hfalse⟩, hplain, hread⟩ := hall text h
  have hfloat := float_word py (fun c hc => of_decide_eq_true (List.all_eq_true.1 hplain c hc)) hread
  refine ⟨?_, hfloat⟩
  unfold SheetCell.scalarText
  rw [if_neg htrue, if_neg hfalse, hfloat]

/-- The condition of a cell that is the set of two texts. -/
def pair (x y : String) : Condition := ⟨.isIn, .list [.str x, .str y], none⟩

theorem parse_bar {x y : String} (h : (text, x, y) ∈ [("a|b", "a", "b"), ("c|d", "c", "d")]) :
    parseCell py (.str text) = some (.ok (some (pair x y))) := by
  have hwords : SheetCell.scalarText py x = some (.str x) ∧
      SheetCell.scalarText py y = some (.str y) := by
    simp only [List.mem_cons, Prod.mk.injEq, List.not_mem_nil, or_false] at h
    rcases h with ⟨-, rfl, rfl⟩ | ⟨-, rfl, rfl⟩
    · simp [scalarText_word]
    · simp [scalarText_word]
  have hall : ∀ e ∈ [("a|b", "a", "b"), ("c|d", "c", "d")],
      strip e.1 = e.1 ∧ lower e.1 ∉ SheetCell.wildcardCells ∧
      SheetCell.comparison e.1.toList = none ∧ SheetCell.setMatch e.1.toList = none ∧
      '|' ∈ e.1.toList ∧
      (((e.1.toList.splitOnP (· == '|')).map pyStrip).filter (· ≠ [])) =
        [e.2.1.toList, e.2.2.toList] ∧
      (e.1.toList = ['a', '|', 'b'] ∨ e.1.toList = ['c', '|', 'd']) := by decide
  obtain ⟨hstrip, hwild, hcomparison, hset, hbar, hparts, hcs⟩ := hall (text, x, y) h
  dsimp only at hstrip hwild hcomparison hset hbar hparts hcs
  have hmembers : SheetCell.members py (· == '|') text.toList = some [.str x, .str y] := by
    unfold SheetCell.members
    rw [hparts]
    simp [hwords]
  show SheetCell.parseText py (strip text) = _
  rw [hstrip, SheetCell.parseText, if_neg hwild, hcomparison]
  dsimp only
  rw [no_range hcs]
  dsimp only
  rw [hset]
  dsimp only
  rw [SheetCell.parsePlain, if_pos hbar, hmembers]
  rfl

theorem parse_refused : parseCell py (.str "a|b") = some (.ok (some (pair "a" "b"))) :=
  parse_bar (by simp)

theorem parse_accepted : parseCell py (.str "c|d") = some (.ok (some (pair "c" "d"))) :=
  parse_bar (by simp)

theorem pair_holds (fieldType : Value) :
    (pair "c" "d").holds py search fieldType (.str "c") = .ok true ∧
      (pair "a" "b").holds py search fieldType (.str "c") = .ok false := by
  have hfloat : ∀ text ∈ ["a", "b", "c"], coerceNumber py (.str text) = .ok none := by
    intro text h
    have hword : text ∈ ["a", "b", "c", "d", "approve"] := by
      simp only [List.mem_cons, List.not_mem_nil, or_false] at h ⊢
      tauto
    rw [coerceNumber, (scalarText_word hword).2]
    rfl
  constructor
  · rfl
  · show anyLooseEqual py (.str "c") [.str "a", .str "b"] = .ok false
    have hloose : ∀ text ∈ ["a", "b"], looseEqual py (.str "c") (.str text) = .ok false := by
      intro text h
      have hne : "c" ≠ text := by
        rintro rfl
        exact absurd h (by decide)
      have hmem : text ∈ ["a", "b", "c"] := List.mem_append_left ["c"] h
      unfold looseEqual
      simp [Value.isBool, pyEq, hne, hfloat "c" (by simp), hfloat text hmem, stringify, PyText.str,
        bind, Except.bind]
    simp [anyLooseEqual, hloose, bind, Except.bind]

/-! ### A sheet that is widened -/

def fill : Kind → Value
  | .input => .str "c|d"
  | .output => .str "approve"

/-- A row that refuses the text `c` under one header, and nowhere else. -/
def wideRow (binding : List Bound) (header : String) : Dict :=
  (header, .str "a|b") ::
    (binding.filter fun bound => bound.header != header).map fun bound =>
      (bound.header, fill bound.kind)

theorem lookup_bounds {bounds : List Bound} (h : (bounds.map Bound.header).Nodup)
    (f : Bound → Value) (hb : bound ∈ bounds) :
    (bounds.map fun b => (b.header, f b)).lookup bound.header = some (f bound) := by
  induction bounds with
  | nil => cases hb
  | cons b bounds ih => grind

theorem cellOf_wideRow {binding : List Bound} (h : (binding.map Bound.header).Nodup)
    (header : String) (hb : bound ∈ binding) :
    cellOf (wideRow binding header) bound.header =
      if bound.header = header then .str "a|b" else fill bound.kind := by
  unfold cellOf wideRow
  rw [List.lookup_cons]
  split_ifs with heq
  · rw [heq, beq_self_eq_true]
    rfl
  · rw [beq_false_of_ne heq]
    have hmem : bound ∈ binding.filter fun b => b.header != header :=
      List.mem_filter.2 ⟨hb, bne_iff_ne.2 heq⟩
    have hfilter := lookup_bounds (h.sublist (List.filter_sublist.map _)) (fun b => fill b.kind)
      hmem
    simp_all

theorem scalar_approve : scalar py (.str "approve") = some (.str "approve") := by
  have hstrip : strip "approve" = "approve" := by decide
  show SheetCell.scalarText py (strip "approve") = _
  rw [hstrip, (scalarText_word (by decide)).1]

theorem not_blank_approve : ¬ ((Value.str "approve").isNull = true ∨
    strip (py.str (.str "approve")) = "") := by
  show ¬ (false = true ∨ strip "approve" = "")
  decide

theorem addValue_approve (r : SheetRow) (outcomes : List String) (index : ℕ) (bound : Bound) :
    r.addValue py outcomes index bound (.str "approve") =
      { r with
        outputs := setKey r.outputs bound.id
          (if bound.id ∈ outcomes then .str (lower "approve") else .str "approve")
        observed := r.observed ++ [(bound.id, .str "approve")] } :=
  if_neg fun h => h.2 (show lower "approve" ∈ validOutcomes by decide)

theorem setKey_ne_nil (d : Dict) (key : String) (v : Value) : setKey d key v ≠ [] := by
  cases d with
  | nil => simp [setKey]
  | cons e d => grind [setKey]

theorem read_exists {outcomes : List String} {index : ℕ} {row : Dict} {binding : List Bound}
    (hinput : ∀ bound ∈ binding, bound.kind = .input →
      ∃ c, parseCell py (cellOf row bound.header) = some (.ok (some c)))
    (houtput : ∀ bound ∈ binding, bound.kind = .output →
      cellOf row bound.header = .str "approve") (r : SheetRow) (hr : r.problems = []) :
    ∃ r', binding.foldlM (SheetRow.read py outcomes index row) r = some r' ∧ r'.problems = [] ∧
      (r.outputs ≠ [] ∨ (∃ bound ∈ binding, bound.kind = .output) → r'.outputs ≠ []) := by
  induction binding generalizing r with
  | nil => exact ⟨r, rfl, hr, by simp⟩
  | cons bound binding ih =>
    have hstep : ∃ r1, r.read py outcomes index row bound = some r1 ∧ r1.problems = [] ∧
        (r.outputs ≠ [] ∨ bound.kind = .output → r1.outputs ≠ []) := by
      obtain ⟨header, kind, id⟩ := bound
      cases kind with
      | input =>
        obtain ⟨c, hc⟩ := hinput _ List.mem_cons_self rfl
        refine ⟨r.addCell index ⟨header, .input, id⟩ (.ok (some c)), ?_, hr, ?_⟩
        · simp [SheetRow.read, hc]
        · rintro (h | h)
          · exact h
          · cases h
      | output =>
        have hcell := houtput _ List.mem_cons_self rfl
        refine ⟨r.addValue py outcomes index ⟨header, .output, id⟩ (.str "approve"), ?_, ?_⟩
        · simp only [SheetRow.read, hcell]
          rw [if_neg not_blank_approve, scalar_approve]
          rfl
        · rw [addValue_approve]
          exact ⟨hr, fun _ => setKey_ne_nil _ _ _⟩
    grind

section Wide
variable {columns : List Column} {bad : Column}

theorem name_strip (column : Column) : strip column.name = column.name :=
  SheetCell.strip_idem column.header

variable {bound : Bound} {table : Table} {α : Type}

theorem mem_bounds (h : bound ∈ bounds lowerText columns) :
    ∃ column ∈ columns, bound.header = column.name := by
  obtain ⟨column, hcolumn, hbound⟩ := List.mem_filterMap.1 h
  grind [Column.bound?]

theorem input_bound (h : bad ∈ inputColumns columns) :
    ⟨bad.name, .input, bad.inputId lowerText⟩ ∈ bounds lowerText columns := by
  obtain ⟨hmem, hinput⟩ := mem_inputColumns.1 h
  exact List.mem_filterMap.2 ⟨bad, hmem, if_pos hinput⟩

theorem output_header (hheaders : ((bounds lowerText columns).map Bound.header).Nodup)
    (hbad : bad ∈ inputColumns columns)
    (hbound : bound ∈ bounds lowerText columns) (hkind : bound.kind = .output) :
    bound.header ≠ bad.header := by
  intro heq
  obtain ⟨column, -, hname⟩ := mem_bounds hbound
  have hplain : bad.name = bound.header :=
    calc bad.name = strip bound.header := by rw [heq, Column.name]
      _ = bound.header := by rw [hname, name_strip]
  have hsame := List.inj_on_of_nodup_map hheaders (input_bound hbad) hbound hplain
  rw [← hsame] at hkind
  cases hkind

theorem output_bound (hbinds : (bindColumns lowerText columns).Binds lowerText columns)
    (h : (bindColumns lowerText columns).outputs ≠ []) :
    ∃ bound ∈ bounds lowerText columns, bound.kind = .output := by
  have hne : outputColumns columns ≠ [] := by
    intro hnil
    rw [hbinds.outputs, hnil] at h
    exact h rfl
  obtain ⟨column, hcolumn⟩ := List.exists_mem_of_ne_nil _ hne
  obtain ⟨hmem, hrole⟩ := List.mem_filter.1 hcolumn
  have hrole : column.roleName = "output" := by simpa using hrole
  have hother : column.roleName ≠ "input" := by simp [hrole]
  refine ⟨⟨column.name, .output, "out_" ++ slug lowerText column.name⟩, ?_, rfl⟩
  refine List.mem_filterMap.2 ⟨column, hmem, ?_⟩
  rw [Column.bound?, if_neg hother, if_pos hrole]

theorem wide_table {name hitPolicy : String} {description : Option String} {rows : List Dict}

    (h : buildTable py lowerText name columns rows hitPolicy description = some (.ok table))
    (hbad : bad ∈ inputColumns columns) :
    ∃ table, buildTable py lowerText name columns
      [wideRow (bounds lowerText columns) bad.header] hitPolicy description = some (.ok table) := by
  obtain ⟨hbinds, houtputs⟩ := buildTable_binds h
  obtain ⟨hheader, -⟩ := buildTable_ok h
  set row := wideRow (bounds lowerText columns) bad.header
  have hheader' : headerProblems lowerText hitPolicy columns [row] = [] := by
    simp only [headerProblems, List.append_eq_nil_iff] at hheader ⊢
    obtain ⟨⟨⟨⟨⟨⟨hpolicy, -⟩, hcolumns⟩, hproblems⟩, hinputs⟩, houtputs⟩, houtcome⟩ := hheader
    exact ⟨⟨⟨⟨⟨⟨hpolicy, rfl⟩, hcolumns⟩, hproblems⟩, hinputs⟩, houtputs⟩, houtcome⟩
  have hheaders := hbinds.bounds
  have hinput : ∀ bound ∈ bounds lowerText columns, bound.kind = .input →
      ∃ c, parseCell py (cellOf row bound.header) = some (.ok (some c)) := by
    intro bound hbound hkind
    rw [cellOf_wideRow hheaders _ hbound, hkind]
    split_ifs
    · exact ⟨_, parse_refused⟩
    · exact ⟨_, parse_accepted⟩
  have houtput : ∀ bound ∈ bounds lowerText columns, bound.kind = .output →
      cellOf row bound.header = .str "approve" := by
    intro bound hbound hkind
    rw [cellOf_wideRow hheaders _ hbound, if_neg (output_header hheaders hbad hbound hkind), hkind]
    rfl
  set outcomes := outcomeIds (bindColumns lowerText columns).outputs
  obtain ⟨r, hread, hr, hall⟩ := @read_exists py outcomes 0 row _ hinput houtput .empty rfl
  have hout : r.outputs.isEmpty = false := by simpa using hall (.inr (output_bound hbinds houtputs))
  rw [← hbinds.binding] at hread
  have hsheet : [row].zipIdx.mapM (readRow py (bindColumns lowerText columns).binding outcomes) =
      some [r] := by
    show ([(row, 0)] : List (Dict × ℕ)).mapM _ = _
    rw [List.mapM_cons, readRow, hread]
    rfl
  have hproblems : rowProblems (r, 0) = [] := by
    rw [rowProblems, hr, hout]
    rfl
  obtain ⟨-, built, hbuilt, -⟩ := buildRow_of_no_problem hproblems
  refine ⟨_, buildTable_of_no_problem hsheet hheader' ?_ ?_⟩
  · show [(r, 0)].flatMap rowProblems = []
    simp [hproblems]
  simp_all

theorem lookup_variables {columns : List Column} (v : Value) {column : Column}
    (h : column ∈ columns) :
    (columns.map fun c => (c.variableName, v)).lookup column.variableName = some v := by
  induction columns with
  | nil => cases h
  | cons c columns ih => grind

theorem widened {input : Column → Input} (hbad : bad ∈ inputColumns columns)
    (h : Built py lowerText columns [wideRow (bounds lowerText columns) bad.header] table input)
    (hstored : ∀ id c, stored py (bounds lowerText columns)
      (wideRow (bounds lowerText columns) bad.header) id = some c → c = pair "c" "d") :
    ¬ MeansSheet py search columns [wideRow (bounds lowerText columns) bad.header] table := by
  intro hmeans
  obtain ⟨outcomes, hrows⟩ := h.rows
  obtain ⟨built, rest, hbuilt, -, hlist⟩ := List.forall₂_cons_left_iff.1 hrows
  obtain ⟨built', rest', hrow, -, hlist'⟩ := List.forall₂_cons_left_iff.1 hmeans
  rw [hlist] at hlist'
  cases hlist'
  have haccepts : Accepts py search table built
      ((inputColumns columns).map fun c => (c.variableName, .str "c")) := by
    rw [accepts_stored hbuilt]
    intro entry hentry c hc
    obtain ⟨i, hi, rfl⟩ := mem_columnIndex hentry
    rw [h.inputs] at hi
    obtain ⟨column, hcolumn, rfl⟩ := List.mem_map.1 hi
    rw [hstored _ c hc, (h.entry hcolumn _).2, lookup_variables _ hcolumn]
    exact (pair_holds _).1
  obtain ⟨hmem, hinput⟩ := mem_inputColumns.1 hbad
  have hpasses := (hrow _).1 haccepts bad hmem hinput
  have hcell : cellOf (wideRow (bounds lowerText columns) bad.header) bad.header = .str "a|b" := by
    simp [cellOf, wideRow]
  rw [h.passes_iff hbad, hcell, parse_refused, lookup_variables _ hbad] at hpasses
  rcases hpasses with hwild | ⟨c, hc, hholds⟩
  · cases hwild
  · cases hc
    have hrefused := (@pair_holds py search (textValue (input bad).fieldType)).2
    rw [Option.getD_some, hrefused] at hholds
    cases hholds

theorem conditionOf_wide (hheaders : ((bounds lowerText columns).map Bound.header).Nodup)
    (header : String) {column : Column} (h : column ∈ inputColumns columns) :
    conditionOf py (wideRow (bounds lowerText columns) header) column =
      some (if column.name = header then pair "a" "b" else pair "c" "d") := by
  have hcell := cellOf_wideRow hheaders header (input_bound h)
  dsimp only at hcell
  rw [conditionOf, hcell]
  split_ifs
  · rw [parse_refused]
    rfl
  · rw [fill, parse_accepted]
    rfl

theorem mem_of_getLast_append {xs ys : List α} {a : α} (hne : ys ≠ [])
    (h : (xs ++ ys).getLast? = some a) : a ∈ ys := by
  simp_all [List.mem_of_getLast?]

theorem stored_spaced (hheaders : ((bounds lowerText columns).map Bound.header).Nodup)
    (hspaces : bad.name ≠ bad.header) (id : String) (c : Condition)
    (h : stored py (bounds lowerText columns)
      (wideRow (bounds lowerText columns) bad.header) id = some c) :
    c = pair "c" "d" := by
  rw [stored, conditions_at] at h
  obtain ⟨column, hcolumn, hc⟩ := List.mem_filterMap.1 (List.mem_of_getLast? h)
  have hne : column.name ≠ bad.header := by
    intro heq
    apply hspaces
    calc bad.name = strip column.name := by rw [heq, Column.name]
      _ = bad.header := by rw [name_strip, heq]
  rw [conditionOf_wide hheaders _ (List.mem_of_mem_filter hcolumn), if_neg hne] at hc
  exact (Option.some.inj hc).symm

theorem stored_shared (hheaders : ((bounds lowerText columns).map Bound.header).Nodup)
    (hnames : ((inputColumns columns).map Column.name).Nodup) (hplain : bad.name = bad.header)
    {before after : List Column} (hsplit : inputColumns columns = before ++ bad :: after)
    {other : Column} (hother : other ∈ after)
    (hslug : other.inputId lowerText = bad.inputId lowerText) (id : String) (c : Condition)
    (h : stored py (bounds lowerText columns)
      (wideRow (bounds lowerText columns) bad.header) id = some c) :
    c = pair "c" "d" := by
  have hcondition : ∀ column ∈ inputColumns columns, column.name ≠ bad.name → ∀ c,
      conditionOf py (wideRow (bounds lowerText columns) bad.header) column =
        some c → c = pair "c" "d" := by
    intro column hcolumn hne c hc
    rw [conditionOf_wide hheaders _ hcolumn, ← hplain, if_neg hne] at hc
    exact (Option.some.inj hc).symm
  have hafter : ∀ column ∈ after, column ∈ inputColumns columns ∧ column.name ≠ bad.name := by
    intro column hcolumn
    rw [hsplit]
    refine ⟨List.mem_append_right _ (List.mem_cons_of_mem _ hcolumn), fun heq => ?_⟩
    rw [hsplit, List.map_append, List.map_cons] at hnames
    have htail := (List.nodup_cons.1 (List.nodup_append.1 hnames).2.1).1
    exact htail (List.mem_map.2 ⟨column, hcolumn, heq⟩)
  rw [stored, conditions_at] at h
  by_cases hid : bad.inputId lowerText = id
  · -- the later column is the last of the id
    have hlist : inputColumns columns = (before ++ [bad]) ++ after := by
      rw [hsplit, List.append_assoc]
      rfl
    rw [hlist, List.filter_append, List.filterMap_append] at h
    have hmem : pair "c" "d" ∈ (after.filter fun column => column.inputId lowerText == id).filterMap
        (conditionOf py (wideRow (bounds lowerText columns) bad.header)) := by
      obtain ⟨hcolumn, hne⟩ := hafter other hother
      have hsame : other ∈ after.filter fun column => column.inputId lowerText == id :=
        List.mem_filter.2 ⟨hother, by simpa [hslug] using hid⟩
      refine List.mem_filterMap.2 ⟨other, hsame, ?_⟩
      rw [conditionOf_wide hheaders _ hcolumn, ← hplain, if_neg hne]
    have hlast := mem_of_getLast_append (List.ne_nil_of_mem hmem) h
    obtain ⟨column, hcolumn, hc⟩ := List.mem_filterMap.1 hlast
    grind
  · obtain ⟨column, hcolumn, hc⟩ := List.mem_filterMap.1 (List.mem_of_getLast? h)
    obtain ⟨hcolumn, hcid⟩ := List.mem_filter.1 hcolumn
    refine hcondition column hcolumn (fun heq => hid ?_) c hc
    rw [← List.inj_on_of_nodup_map hnames hcolumn ?_ heq]
    · simpa using hcid
    · rw [hsplit]
      exact List.mem_append_right _ List.mem_cons_self

theorem exists_later {β : Type} [DecidableEq β] (f : α → β) {as : List α} (h : ¬ (as.map f).Nodup) :
    ∃ before a after b, as = before ++ a :: after ∧ b ∈ after ∧ f b = f a := by
  induction as with
  | nil => exact absurd List.nodup_nil h
  | cons a as ih =>
    by_cases hmem : f a ∈ as.map f
    · obtain ⟨b, hb, heq⟩ := List.mem_map.1 hmem
      exact ⟨[], a, as, b, rfl, hb, heq⟩
    · have htail : ¬ (as.map f).Nodup := fun hnodup => h (List.nodup_cons.2 ⟨hmem, hnodup⟩)
      obtain ⟨before, c, after, b, rfl, hb, heq⟩ := ih htail
      exact ⟨a :: before, c, after, b, rfl, hb, heq⟩

end Wide

/-- Every table of a mapping means what its sheet says exactly if no two input columns share a
    slug and no input header has spaces around it. -/
theorem means_sheet_iff {name hitPolicy : String} {description : Option String}
    {columns : List Column} {rows : List Dict} {table : Table}
    (h : buildTable py lowerText name columns rows hitPolicy description = some (.ok table)) :
    (∀ rows table, buildTable py lowerText name columns rows hitPolicy description =
      some (.ok table) → MeansSheet py search columns rows table) ↔ Separate lowerText columns := by
  constructor
  · intro hmeans
    have hheaders := (buildTable_binds h).1.bounds
    have hnames := hheaders.sublist (names_sublist columns)
    have hstored : ∀ bad ∈ inputColumns columns, ¬ ∀ id c,
        stored py (bounds lowerText columns)
          (wideRow (bounds lowerText columns) bad.header) id = some c → c = pair "c" "d" := by
      intro bad hbad hstored
      obtain ⟨wide, hwide⟩ := wide_table h hbad
      obtain ⟨input, hbuilt⟩ := buildTable_built hwide
      exact widened hbad hbuilt hstored (hmeans _ _ hwide)
    have hplain : ∀ column ∈ inputColumns columns, column.name = column.header := by
      intro column hcolumn
      by_contra hspaces
      exact hstored column hcolumn (stored_spaced hheaders hspaces)
    refine ⟨?_, hplain⟩
    by_contra hslugs
    obtain ⟨before, bad, after, other, hsplit, hother, hslug⟩ := exists_later _ hslugs
    have hbad : bad ∈ inputColumns columns := by
      rw [hsplit]
      exact List.mem_append_right _ List.mem_cons_self
    exact hstored bad hbad (stored_shared hheaders hnames (hplain bad hbad) hsplit hother
      (congrArg ("in_" ++ ·) hslug))
  · intro hseparate rows table htable
    obtain ⟨input, hbuilt⟩ := buildTable_built htable
    exact hbuilt.means hseparate

end Meaning

/-! ### A sheet with two credit scores -/

/-- The headers differ in a character that a slug does not keep. -/
def scoreColumns : List Column :=
  [⟨"Credit score", "input", some "bureau_score", some "number", none⟩,
    ⟨"Credit-score", "input", some "internal_score", some "number", none⟩,
    ⟨"Decision", "output", none, none, some "outcome"⟩]

def scoreRow : Dict :=
  [("Credit score", .str ">= 700"), ("Credit-score", .str ">= 600"), ("Decision", .str "approve")]

def scoreTable : Table :=
  ⟨"Pricing", none, "first",
    [⟨"in_credit_score", "bureau_score", "Credit score", some "number"⟩,
      ⟨"in_credit_score", "internal_score", "Credit-score", some "number"⟩],
    [⟨"out_decision", "Decision", some "outcome"⟩],
    [⟨"r1", [("in_credit_score", Condition.toValue ⟨.ge, .int 600, none⟩)],
      [("out_decision", .str "approve")]⟩]⟩

theorem means_sheet_scores : ¬ ∀ rows table,
    buildTable asciiText lower "Pricing" scoreColumns rows "first" none = some (.ok table) →
      MeansSheet asciiText (fun _ _ => false) scoreColumns rows table := by
  have hiff := @means_sheet_iff asciiText lower (fun _ _ => false) "Pricing" "first" none
    scoreColumns [scoreRow] scoreTable (by decide +kernel)
  have hslugs : ¬ ((inputColumns scoreColumns).map fun column => slug lower column.name).Nodup := by
    decide +kernel
  exact hiff.not.2 fun h => hslugs h.slugs

/-- The first score constrains no row: a bureau score of 300 is approved. -/
theorem first_score_ignored :
    buildTable asciiText lower "Pricing" scoreColumns [scoreRow] "first" none =
      some (.ok scoreTable) ∧
    ¬ MeansSheet asciiText (fun _ _ => false) scoreColumns [scoreRow] scoreTable := by
  refine ⟨by decide +kernel, ?_⟩
  rintro (_ | ⟨hrow, -⟩)
  have hmatched : ((evaluateRow asciiText (fun _ _ => false) (columnIndex scoreTable.inputs)
      [("bureau_score", .int 300), ("internal_score", .int 650)]
      (BuiltRow.toValue ⟨"r1", [("in_credit_score", Condition.toValue ⟨.ge, .int 600, none⟩)],
        [("out_decision", .str "approve")]⟩)).toOption.any RowTrace.matched) = true := by
    decide +kernel
  obtain ⟨trace, htrace, hmatched⟩ := (Option.any_eq_true _ _).1 hmatched
  have hpasses := (hrow [("bureau_score", .int 300), ("internal_score", .int 650)]).1
    ⟨_, trace, inputIndex_toValue scoreTable, toOption_eq_some.1 htrace, hmatched⟩
    ⟨"Credit score", "input", some "bureau_score", some "number", none⟩ List.mem_cons_self
    (by decide +kernel)
  obtain ⟨i, hi, -, hpass⟩ := hpasses
  have hnumber : ∀ i ∈ scoreTable.inputs, i.fieldType = some "number" := by decide
  have hparse : parseCell asciiText (cellOf scoreRow "Credit score") =
      some (.ok (some ⟨.ge, .int 700, none⟩)) := by decide +kernel
  have hrefused : (Condition.mk .ge (.int 700) none).holds asciiText (fun _ _ => false)
      (textValue (some "number")) (.int 300) = .ok false := by decide +kernel
  rw [hnumber i hi, hparse] at hpass
  rcases hpass with hwild | ⟨c, hc, hholds⟩
  · cases hwild
  · cases hc
    cases hrefused.symm.trans hholds

end RuleMind.SheetImport
