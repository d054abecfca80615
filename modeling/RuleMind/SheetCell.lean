/-
  The cells of an imported sheet: `_scalar` and `parse_cell` of
  `app/decision_table_import.py`.

  What reads as not-a-number has no JSON value: nothing is made of it.
-/
import RuleMind.ShadowedRows

namespace RuleMind.SheetCell
open Text (F64 trimBy isSpace trim lowerCase)
open DecisionTable (isWildcard cellTest cellOperator cellValue cellValue2)

/-! ### Conditions -/

structure Condition where
  operator : Operator
  value : Value
  value2 : Option Value
  deriving DecidableEq

def operatorText (op : Operator) : String :=
  ((operatorNames.find? fun entry => entry.2 == op).map Prod.fst).getD ""

def Condition.toValue (c : Condition) : Value :=
  .dict ([("operator", Value.str (operatorText c.operator)), ("value", c.value)] ++
    (c.value2.map fun v => ("value2", v)).toList)

def Condition.holds (py : PyText) (search : RegexSearch) (c : Condition)
    (fieldType actual : Value) : Except PyError Bool :=
  compare py search actual c.operator c.value (c.value2.getD .null) fieldType

section Cells
variable (py : PyText)

def strip (s : String) : String := String.ofList (pyStrip s.toList)

/-- `int(value) if value.is_integer() else value`. -/
def whole (q : ℚ) : Value := if q.den = 1 then .int q.num else .float q

def numberValue : F64 → Option Value
  | .finite q => some (whole q)
  | .infinite neg => some (.inf neg)
  | .nan => none

/-- `_scalar` of a text without spaces around it. -/
def scalarText (text : String) : Option Value :=
  if lower text ∈ ["true", "yes"] then some (.bool true)
  else if lower text ∈ ["false", "no"] then some (.bool false)
  else match py.float text with
    | some x => numberValue x
    | none => some (.str text)

def scalar : Value → Option Value
  | .bool b => some (.bool b)
  | .int n => some (.int n)
  | .float q => some (whole q)
  | .inf neg => some (.inf neg)
  | raw => scalarText py (strip (py.str raw))

/-- A character of `[\d.]`. -/
def boundChar (c : Char) : Bool := c == '.' || (digitOf py c).isSome

/-- `-?` -/
def minus : List Char → List Char × List Char
  | '-' :: cs => (['-'], cs)
  | cs => ([], cs)

/-- `\.\.|to|–|—|-` -/
def separator : List Char → Option (List Char)
  | '.' :: '.' :: cs => some cs
  | '–' :: cs => some cs
  | '—' :: cs => some cs
  | '-' :: cs => some cs
  | t :: o :: cs => if t.toLower = 't' ∧ o.toLower = 'o' then some cs else none
  | _ => none

/-- `\s*(-?[\d.]+)\s*\]?$` -/
def upperBound (cs : List Char) : Option (List Char) :=
  let (sign, cs) := minus (cs.dropWhile pySpace)
  let run := cs.takeWhile (boundChar py)
  let rest := (cs.dropWhile (boundChar py)).dropWhile pySpace
  if run ≠ [] ∧ (rest = [] ∨ rest = [']']) then some (sign ++ run) else none

/-- `_BETWEEN_PATTERNS`: the bounds.  As much of the first run of digits and points is the
    lower bound as leaves a separator and an upper bound. -/
def betweenMatch (cs : List Char) : Option (List Char × List Char) :=
  let cs := match cs with
    | '[' :: cs => cs
    | cs => cs
  let (sign, cs) := minus (cs.dropWhile pySpace)
  let run := cs.takeWhile (boundChar py)
  let rest := cs.dropWhile (boundChar py)
  (List.range run.length).reverse.findSome? fun n =>
    (separator ((run.drop (n + 1) ++ rest).dropWhile pySpace)).bind fun rest =>
      (upperBound py rest).map fun high => (sign ++ run.take (n + 1), high)

/-- A letter whatever its case; Python takes the dotless and the dotted one for an `i`. -/
def caseless (letter c : Char) : Bool :=
  c.toLower == letter || (letter == 'i' && (c == 'ı' || c == 'İ'))

def keyword : List Char → List Char → Option (List Char)
  | [], cs => some cs
  | letter :: word, c :: cs => if caseless letter c then keyword word cs else none
  | _ :: _, [] => none

/-- `not\s+in|in` -/
def setOperator (cs : List Char) : Option (Operator × List Char) :=
  match keyword "not".toList cs with
  | some rest =>
    if rest.head?.any pySpace then
      (keyword "in".toList (rest.dropWhile pySpace)).map fun rest => (.notIn, rest)
    else none
  | none => (keyword "in".toList cs).map fun rest => (.isIn, rest)

/-- `_SET_PATTERN`: the operator and the body. -/
def setMatch (cs : List Char) : Option (Operator × List Char) :=
  (setOperator cs).bind fun (op, rest) =>
    let body := rest.dropWhile pySpace
    if rest.head?.any (fun c => pySpace c || c == '[' || c == '(') ∧ body ≠ [] ∧ '\n' ∉ body
    then some (op, body)
    else none

/-- `[_scalar(part) for part in … if part.strip()]`. -/
def members (separates : Char → Bool) (cs : List Char) : Option (List Value) :=
  (((cs.splitOnP separates).map pyStrip).filter (· ≠ [])).mapM fun part =>
    scalarText py (String.ofList part)

/-! ### Cells -/

def wildcardCells : List String := ["", "*", "-", "any", "all", "n/a", "na", "—", "–"]

def comparisons : List (String × Operator) :=
  [(">=", .ge), ("<=", .le), ("!=", .ne), ("<>", .ne), ("==", .eq), ("=", .eq), (">", .gt),
    ("<", .lt)]

/-- The operator a text starts with, and what follows. -/
def comparison (cs : List Char) : Option (Operator × List Char) :=
  comparisons.findSome? fun (token, op) =>
    if token.toList.isPrefixOf cs then some (op, pyStrip (cs.drop token.length)) else none

/-- A condition, a wildcard or the text of an error. -/
abbrev Parsed := Except String (Option Condition)

def quoted (text : String) : String := "'" ++ text ++ "'"

def parseComparison (text : String) (op : Operator) (rest : List Char) : Option Parsed :=
  if rest = [] then some (.error (quoted text ++ " has an operator but no value"))
  else (scalarText py (String.ofList rest)).map fun v => .ok (some ⟨op, v, none⟩)

def parseRange (text : String) (low high : List Char) : Option Parsed :=
  match py.float (String.ofList low), py.float (String.ofList high) with
  | some l, some h => (numberValue l).bind fun low => (numberValue h).map fun high =>
    if F64.gt l h then
      .error (quoted text ++ " is a backwards range (" ++ py.str low ++ " > " ++ py.str high ++ ")")
    else .ok (some ⟨.between, low, some high⟩)
  | _, _ => some (.error (quoted text ++ " looks like a range but its bounds are not numbers"))

def parseSet (text : String) (op : Operator) (body : List Char) : Option Parsed :=
  let body := trimBy (· ∈ ['[', ']', '(', ')', '\x7b', '\x7d']) (pyStrip body)
  (members py (fun c => c == ',' || c == '|') body).map fun ms =>
    if ms = [] then .error (quoted text ++ " is an empty set") else .ok (some ⟨op, .list ms, none⟩)

/-- A text by itself; several of them between bars are a set. -/
def parsePlain (text : String) : Option Parsed :=
  let equal := (scalarText py text).map fun v => Except.ok (some ⟨.eq, v, none⟩)
  if '|' ∈ text.toList then
    (members py (· == '|') text.toList).bind fun ms =>
      if 1 < ms.length then some (.ok (some ⟨.isIn, .list ms, none⟩)) else equal
  else equal

def parseText (text : String) : Option Parsed :=
  if lower text ∈ wildcardCells then some (.ok none)
  else match comparison text.toList with
    | some (op, rest) => parseComparison py text op rest
    | none => match betweenMatch py text.toList with
      | some (low, high) => parseRange py text low high
      | none => match setMatch text.toList with
        | some (op, body) => parseSet py text op body
        | none => parsePlain py text

def parseCell (raw : Value) : Option Parsed :=
  match raw with
  | .null => some (.ok none)
  | .bool _ | .int _ | .float _ | .inf _ => (scalar py raw).map fun v => .ok (some ⟨.eq, v, none⟩)
  | raw => parseText py (strip (py.str raw))

example : parseCell asciiText (.str ">= 700") = some (.ok (some ⟨.ge, .int 700, none⟩)) := by
  decide +kernel

/-! ### What is parsed stands for itself -/

/-- A threshold that the evaluation reads as it is, and takes for no wildcard. -/
def Threshold (v : Value) : Prop := DecisionTable.blank (some v) = false ∧ parseRuleValue py v = v

structure Condition.Legible (c : Condition) : Prop where
  operator : c.operator ≠ .other
  value : Threshold py c.value
  value2 : ∀ v, c.value2 = some v → Threshold py v

theorem strip_idem (s : String) : strip (strip s) = strip s := by
  simp [strip, pyStrip, Text.trimBy_idem]

theorem whole_threshold (q : ℚ) : Threshold py (whole q) := by
  unfold whole
  split
  · exact ⟨rfl, rfl⟩
  · exact ⟨rfl, rfl⟩

variable {v : Value} {text : String} {op : Operator} {cs rest : List Char}

theorem numberValue_threshold {x : F64} (h : numberValue x = some v) : Threshold py v := by
  cases x with
  | finite q =>
    cases h
    exact whole_threshold py q
  | infinite neg =>
    cases h
    exact ⟨rfl, rfl⟩
  | nan => cases h

theorem scalarText_threshold (hne : text ≠ "")
    (hstrip : strip text = text) (h : scalarText py text = some v) : Threshold py v := by
  unfold scalarText at h
  split_ifs at h with htrue hfalse
  · cases h
    exact ⟨rfl, rfl⟩
  · cases h
    exact ⟨rfl, rfl⟩
  · cases hf : py.float text with
    | some x =>
      rw [hf] at h
      exact numberValue_threshold py h
    | none =>
      rw [hf] at h
      cases h
      have hfloat : py.float (lower text) = none := by rw [float_lower, hf]
      have hint : py.int (lower text) = none := int_of_float py hfloat
      have htext : String.ofList (pyStrip text.toList) = text := hstrip
      have hbool : ¬ (lower text = "true" ∨ lower text = "false") := by
        rintro (heq | heq)
        · exact htrue (by simp [heq])
        · exact hfalse (by simp [heq])
      refine ⟨by simpa [DecisionTable.blank] using hne, ?_⟩
      simp_all [parseRuleValue]

theorem scalarText_legible (hop : op ≠ .other)
    (hne : text ≠ "") (hstrip : strip text = text) (h : scalarText py text = some v) :
    (Condition.mk op v none).Legible py :=
  ⟨hop, scalarText_threshold py hne hstrip h, by simp⟩

theorem list_legible (hop : op ≠ .other) (vs : List Value) :
    (Condition.mk op (.list vs) none).Legible py :=
  ⟨hop, ⟨rfl, rfl⟩, by simp⟩

/-- What is parsed is no condition, or one the evaluation reads as it is. -/
def LegibleIfParsed (parsed : Option Parsed) : Prop :=
  ∀ c, parsed = some (.ok (some c)) → c.Legible py

theorem comparison_operator
    (h : comparison cs = some (op, rest)) : op ≠ .other ∧ pyStrip rest = rest := by
  obtain ⟨⟨token, op'⟩, hmem, h⟩ := List.exists_of_findSome?_eq_some h
  have hall : ∀ entry ∈ comparisons, entry.2 ≠ Operator.other := by decide
  dsimp only at h
  split_ifs at h
  cases h
  exact ⟨hall _ hmem, Text.trimBy_idem _ _⟩

theorem parseComparison_legible (hop : op ≠ .other) (hrest : pyStrip rest = rest) :
    LegibleIfParsed py (parseComparison py text op rest) := by
  intro c h
  unfold parseComparison at h
  split_ifs at h with hnil
  · cases h
  · obtain ⟨v, hv, h⟩ := Option.map_eq_some_iff.1 h
    cases h
    refine scalarText_legible py hop ?_ ?_ hv
    · simp_all
    · rw [strip, String.toList_ofList, hrest]

theorem parseRange_legible {low high : List Char} :
    LegibleIfParsed py (parseRange py text low high) := by
  intro c h
  unfold parseRange at h
  split at h
  · obtain ⟨low, hlow, h⟩ := Option.bind_eq_some_iff.1 h
    obtain ⟨high, hhigh, h⟩ := Option.map_eq_some_iff.1 h
    split_ifs at h
    cases h
    refine ⟨by simp, numberValue_threshold py hlow, ?_⟩
    rintro v ⟨⟩
    exact numberValue_threshold py hhigh
  · cases h

theorem setOperator_set (h : setOperator cs = some (op, rest)) : op ≠ .other := by
  grind [setOperator, Option.map_eq_some_iff]

variable {body : List Char} {c : Condition}

theorem setMatch_set (h : setMatch cs = some (op, body)) : op ≠ .other := by
  obtain ⟨⟨op', rest⟩, hop, h⟩ := Option.bind_eq_some_iff.1 h
  grind [setOperator_set]

theorem parseSet_legible (hop : op ≠ .other) : LegibleIfParsed py (parseSet py text op body) := by
  intro c h
  obtain ⟨ms, -, h⟩ := Option.map_eq_some_iff.1 h
  split_ifs at h
  cases h
  exact list_legible py hop ms

theorem parsePlain_legible (hne : text ≠ "") (hstrip : strip text = text) :
    LegibleIfParsed py (parsePlain py text) := by
  intro c h
  have hequal : (scalarText py text).map (fun v => Except.ok (some ⟨.eq, v, none⟩)) =
      some (Except.ok (ε := String) (some c)) → c.Legible py := by
    intro h
    obtain ⟨v, hv, h⟩ := Option.map_eq_some_iff.1 h
    cases h
    exact scalarText_legible py (by decide) hne hstrip hv
  grind [parsePlain, Option.bind_eq_some_iff, list_legible]

theorem parseText_legible {text : String} (hstrip : strip text = text) :
    LegibleIfParsed py (parseText py text) := by
  intro c h
  unfold parseText at h
  split_ifs at h with hwild
  · cases h
  have hne : text ≠ "" := by
    rintro rfl
    exact hwild (by decide)
  split at h
  · rename_i hcomparison
    obtain ⟨hop, hrest⟩ := comparison_operator hcomparison
    exact parseComparison_legible py hop hrest c h
  split at h
  · exact parseRange_legible py c h
  split at h
  · rename_i hset
    exact parseSet_legible py (setMatch_set hset) c h
  · exact parsePlain_legible py hne hstrip c h

theorem scalar_number {raw : Value} (hraw : (∃ b, raw = .bool b) ∨ (∃ n, raw = .int n) ∨
    (∃ q, raw = .float q) ∨ ∃ neg, raw = .inf neg) (h : scalar py raw = some v) :
    Threshold py v := by
  rcases hraw with ⟨b, rfl⟩ | ⟨n, rfl⟩ | ⟨q, rfl⟩ | ⟨neg, rfl⟩
  · cases h
    exact ⟨rfl, rfl⟩
  · cases h
    exact ⟨rfl, rfl⟩
  · cases h
    exact whole_threshold py q
  · cases h
    exact ⟨rfl, rfl⟩

theorem parseCell_legible (raw : Value) : LegibleIfParsed py (parseCell py raw) := by
  intro c h
  have hscalar : ((scalar py raw).map fun v => Except.ok (some ⟨.eq, v, none⟩)) =
      some (Except.ok (ε := String) (some c)) → ((∃ b, raw = .bool b) ∨ (∃ n, raw = .int n) ∨
        (∃ q, raw = .float q) ∨ ∃ neg, raw = .inf neg) → c.Legible py := by
    intro h hraw
    obtain ⟨v, hv, h⟩ := Option.map_eq_some_iff.1 h
    cases h
    exact ⟨by simp, scalar_number py hraw hv, by simp⟩
  cases raw with
  | null => cases h
  | bool b => exact hscalar h (by simp)
  | int n => exact hscalar h (by simp)
  | float q => exact hscalar h (by simp)
  | inf neg => exact hscalar h (by simp)
  | str s => exact @parseText_legible py (strip (py.str (.str s))) (strip_idem _) c h
  | list vs => exact @parseText_legible py (strip (py.str (.list vs))) (strip_idem _) c h
  | dict kvs => exact @parseText_legible py (strip (py.str (.dict kvs))) (strip_idem _) c h

variable (search : RegexSearch)

theorem ofText_operatorText (h : op ≠ .other) :
    Operator.ofText (operatorText op) = op ∧ operatorText op ∉ ["", "any", "*", "-"] := by
  cases op with
  | other => exact absurd rfl h
  | _ => decide

theorem isWildcard_toValue (hc : c.Legible py) : isWildcard c.toValue = .ok false := by
  have hop := (ofText_operatorText hc.operator).2
  have hblank := hc.value.1
  have hvalue : c.toValue.field "value" = some c.value := rfl
  show Except.ok (_ || _) = _
  simp_all

theorem cellTest_toValue (hc : c.Legible py) (fieldType actual : Value) :
    cellTest py search c.toValue fieldType actual = c.holds py search fieldType actual := by
  have hop : cellOperator py c.toValue = c.operator := (ofText_operatorText hc.operator).1
  have hvalue : cellValue py c.toValue = c.value := hc.value.2
  have hvalue2 : cellValue2 py c.toValue = c.value2.getD .null := by
    obtain ⟨op, v, v2⟩ := c
    cases v2 with
    | none => rfl
    | some v2 =>
      obtain ⟨hblank, hparse⟩ := hc.value2 v2 rfl
      show (if DecisionTable.blank (some v2) then Value.null else parseRuleValue py v2) = v2
      rw [hblank, hparse]
      rfl
  rw [DecisionTable.cellTest_eq (isWildcard_toValue py hc), hop, hvalue, hvalue2]
  rfl

end Cells

end RuleMind.SheetCell
