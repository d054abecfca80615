/-
  One condition: `compare` of `app/logic.py` with the readings it makes of its
  operands (numbers, booleans, dates, lists of options), on values and thresholds
  of any kind.
-/
import RuleMind.Lib.Raises
import RuleMind.NumberText

namespace RuleMind

open Text

/-! ### Operators -/

inductive Operator
  | eq | ne | gt | ge | lt | le
  | between | isIn | notIn | regex | exists | notExists
  | other
  deriving DecidableEq, Repr

def operatorNames : List (String × Operator) :=
  [("==", .eq), ("!=", .ne), (">", .gt), (">=", .ge), ("<", .lt), ("<=", .le),
    ("between", .between), ("in", .isIn), ("not_in", .notIn), ("regex", .regex),
    ("exists", .exists), ("!exists", .notExists)]

def Operator.ofText (s : String) : Operator := (operatorNames.lookup s).getD .other

/-- The number a value stands for in `==`; a boolean is one. -/
def Value.numeric : Value → Option ℚ
  | .bool b => some (if b then 1 else 0)
  | .int n => some n
  | .float q => some q
  | _ => none

mutual

/-- `a == b`. -/
def pyEq : Value → Value → Bool
  | .null, .null => true
  | .inf a, .inf b => a == b
  | .str a, .str b => a == b
  | .list as, .list bs => pyEqList as bs
  | .dict as, .dict bs => as.length == bs.length && pyEqFields as bs
  | .bool a, b => b.numeric == some (if a then 1 else 0)
  | .int a, b => b.numeric == some (a : ℚ)
  | .float a, b => b.numeric == some a
  | _, _ => false

def pyEqList : List Value → List Value → Bool
  | [], [] => true
  | a :: as, b :: bs => pyEq a b && pyEqList as bs
  | _, _ => false

/-- Every entry of the first object is in the second. -/
def pyEqFields : List (String × Value) → List (String × Value) → Bool
  | [], _ => true
  | (k, a) :: as, bs => (match bs.lookup k with
    | some b => pyEq a b
    | none => false) && pyEqFields as bs

end

/-! ### Readings -/

section Readings
variable (py : PyText)

def coerceNumber : Value → Except PyError (Option ℚ)
  | .int n => match roundF64 n with
    | some q => .ok (some q)
    | none => .error .overflowError
  | .float q => .ok (some q)
  | .str s => .ok ((py.float s).bind F64.toRat)
  | .null | .bool _ | .inf _ | .list _ | .dict _ => .ok none

/-- `str(value).strip().lower() in {"true", "1", "yes"}`. -/
def boolText (s : String) : Bool := lower (String.ofList (pyStrip s.toList)) ∈ ["true", "1", "yes"]

def toBool : Value → Bool
  | .bool b => b
  | .int n => n != 0
  | .float q => q != 0
  | .inf _ => true
  | v => boolText (py.str v)

/-- `s.split(",")`. -/
def splitComma (cs : List Char) : List (List Char) :=
  match cs with
  | [] => [[]]
  | c :: cs =>
    if c = ',' then [] :: splitComma cs
    else match splitComma cs with
      | part :: parts => (c :: part) :: parts
      | [] => [[c]]

/-- `[item.strip() for item in s.split(",") if item.strip() != ""]`. -/
def splitOptions (s : String) : List String :=
  ((splitComma s.toList).map pyStrip).filter (· ≠ []) |>.map String.ofList

def asOptionList : Value → List Value
  | .list vs => vs
  | .null => []
  | v => (splitOptions (py.str v)).map .str

def stringify : Value → String
  | .bool b => if b then "true" else "false"
  | v => py.str v

def Value.isBool : Value → Bool
  | .bool _ => true
  | _ => false

def looseEqual (actual expected : Value) : Except PyError Bool :=
  if actual.isBool || expected.isBool then
    .ok (if actual.isBool && expected.isBool then pyEq actual expected
      else stringify py actual == stringify py expected)
  else if pyEq actual expected then .ok true
  else do
    let a ← coerceNumber py actual
    let e ← coerceNumber py expected
    match a, e with
    | some a, some e => .ok (a == e)
    | _, _ => .ok (stringify py actual == stringify py expected)

/-- `any(_loose_equal(actual, option) for option in options)`. -/
def anyLooseEqual (actual : Value) : List Value → Except PyError Bool
  | [] => .ok false
  | option :: options => do
    if ← looseEqual py actual option then .ok true else anyLooseEqual actual options

/-! ### Dates -/

/-- A character of `\d`. -/
def digitOf (c : Char) : Option ℕ :=
  if c.isDigit then some (c.toNat - 48) else (py.decimal c).map Fin.val

/-- At most `max` digits from the front: their number, their value and the rest. -/
def takeDigits : ℕ → ℕ → ℕ → List Char → ℕ × ℕ × List Char
  | 0, n, v, cs => (n, v, cs)
  | max + 1, n, v, c :: cs => match digitOf py c with
    | some d => takeDigits max (n + 1) (10 * v + d) cs
    | none => (n, v, c :: cs)
  | _ + 1, n, v, [] => (n, v, [])

/-- `\d{min,max}`. -/
def digits (min max : ℕ) (cs : List Char) : Option (ℕ × List Char) :=
  let (n, v, rest) := takeDigits py max 0 0 cs
  if min ≤ n then some (v, rest) else none

def expect (ok : Char → Bool) : List Char → Option (List Char)
  | c :: cs => if ok c then some cs else none
  | [] => none

structure Civil where
  year : ℕ
  month : ℕ
  day : ℕ
  hour : ℕ
  minute : ℕ
  second : ℕ
  /-- What is taken off for the timezone, in seconds. -/
  offset : ℤ

/-- `(?::(\d{1,2}))?`. -/
def isoSecond (cs : List Char) : Option (ℕ × List Char) :=
  match cs with
  | ':' :: rest => digits py 1 2 rest
  | _ => some (0, cs)

/-- `(?:\.\d+)?`. -/
def isoFraction (cs : List Char) : Option (List Char) :=
  match cs with
  | '.' :: rest => (digits py 1 rest.length rest).map Prod.snd
  | _ => some cs

/-- `(Z|[+-]\d{2}:?\d{2})?$`. -/
def isoZone (cs : List Char) : Option ℤ :=
  match cs with
  | [] => some 0
  | ['Z'] => some 0
  | c :: rest => do
    let (hours, rest) ← digits py 2 2 rest
    let rest := match rest with
      | ':' :: rest => rest
      | rest => rest
    let (minutes, rest) ← digits py 2 2 rest
    let seconds : ℤ := hours * 3600 + minutes * 60
    if rest ≠ [] then none
    else if c = '+' then some seconds
    else if c = '-' then some (-seconds)
    else none

def isoTime (year month day : ℕ) (cs : List Char) : Option Civil :=
  match cs with
  | [] => some ⟨year, month, day, 0, 0, 0, 0⟩
  | _ => do
    let rest ← expect (fun c => c == 'T' || c == ' ') cs
    let (hour, rest) ← digits py 1 2 rest
    let rest ← expect (· == ':') rest
    let (minute, rest) ← digits py 1 2 rest
    let (second, rest) ← isoSecond py rest
    let rest ← isoFraction py rest
    let offset ← isoZone py rest
    some ⟨year, month, day, hour, minute, second, offset⟩

/-- `_ISO_DATE_RE.match`. -/
def isoMatch (cs : List Char) : Option Civil := do
  let (year, rest) ← digits py 4 4 cs
  let rest ← expect (· == '-') rest
  let (month, rest) ← digits py 1 2 rest
  let rest ← expect (· == '-') rest
  let (day, rest) ← digits py 1 2 rest
  isoTime py year month day rest

def isLeapYear (year : ℕ) : Bool := (year % 4 == 0 && year % 100 != 0) || year % 400 == 0

def daysInMonth (year month : ℕ) : ℕ :=
  if month = 2 ∧ isLeapYear year then 29
  else [31, 28, 31, 30, 31, 30, 31, 31, 30, 31, 30, 31].getD (month - 1) 0

def daysFromCivil (year month day : ℤ) : ℤ :=
  let y := year - if month ≤ 2 then 1 else 0
  let era := (if 0 ≤ y then y else y - 399) / 400
  let yoe := y - era * 400
  let doy := (153 * (month + if month > 2 then -3 else 9) + 2) / 5 + (day - 1)
  let doe := yoe * 365 + yoe / 4 - yoe / 100 + doy
  era * 146097 + doe - 719468

def Civil.valid (c : Civil) : Bool :=
  1 ≤ c.month && c.month ≤ 12 && 1 ≤ c.day && c.day ≤ daysInMonth c.year c.month &&
    c.hour ≤ 23 && c.minute ≤ 59 && c.second ≤ 59

def Civil.epoch (c : Civil) : ℤ :=
  daysFromCivil c.year c.month c.day * 86400 + c.hour * 3600 + c.minute * 60 + c.second - c.offset

def dateToEpoch (v : Value) : Option ℤ :=
  if v.isNull || v.isBool then none
  else do
    let c ← isoMatch py (pyStrip (py.str v).toList)
    if c.valid then some c.epoch else none

/-! ### The comparison -/

/-- `(field_type or "").lower()`. -/
def typeName (fieldType : Value) : Except PyError String :=
  match fieldType with
  | .str s => .ok (lower s)
  | v => if v.truthy then .error .attributeError else .ok ""

/-- `a op b`, with the upper bound of `between`. -/
def ordered (op : Operator) {α : Type} [LinearOrder α] (a e : α) (upper : Option α) : Bool :=
  match op with
  | .eq => a == e
  | .ne => a != e
  | .ge => e ≤ a
  | .le => a ≤ e
  | .gt => e < a
  | .lt => a < e
  | .between => upper.any fun u => e ≤ a && a ≤ u
  | _ => false

def compareDates (actual : Value) (op : Operator) (expected expected2 : Value) : Bool :=
  match dateToEpoch py actual, dateToEpoch py expected with
  | some a, some e => ordered op a e (dateToEpoch py expected2)
  | _, _ => false

/-- The comparison of numbers; the upper bound is read for `between` only. -/
def compareNumbers (actual : Value) (op : Operator) (expected expected2 : Value) :
    Except PyError Bool := do
  let a ← coerceNumber py actual
  let e ← coerceNumber py expected
  match a, e with
  | some a, some e =>
    if op = .between then do
      let u ← coerceNumber py expected2
      .ok (ordered op a e u)
    else .ok (ordered op a e none)
  | _, _ => .ok false

def Operator.isOrder : Operator → Bool
  | .gt | .ge | .lt | .le | .between => true
  | _ => false

/-- The search of the `regex` operator, bounded in length and in time. -/
abbrev RegexSearch := String → String → Bool

/-- `compare`, from the typed comparisons on. -/
def compareTyped (actual : Value) (op : Operator) (expected expected2 fieldType : Value) :
    Except PyError Bool := do
  let type ← typeName fieldType
  if type = "boolean" ∧ (op = .eq ∨ op = .ne) then
    let matched := toBool py actual == toBool py expected
    .ok (if op = .eq then matched else !matched)
  else if type = "date" then .ok (compareDates py actual op expected expected2)
  else if op.isOrder then compareNumbers py actual op expected expected2
  else if op = .eq then looseEqual py actual expected
  else if op = .ne then (looseEqual py actual expected).map (!·)
  else .ok false

def compare (search : RegexSearch) (actual : Value) (op : Operator)
    (expected expected2 fieldType : Value) : Except PyError Bool :=
  match op with
  | .exists => .ok (!actual.isNull && actual != .str "")
  | .notExists => .ok (actual.isNull || actual == .str "")
  | .isIn => anyLooseEqual py actual (asOptionList py expected)
  | .notIn => (anyLooseEqual py actual (asOptionList py expected)).map (!·)
  | .regex => .ok (!actual.isNull && search (py.str expected) (py.str actual))
  | op => compareTyped py actual op expected expected2 fieldType

end Readings

/-! ### Numbers and their texts -/

variable {v : Value} {py : PyText}

theorem parseRuleValue_str {t : String} (h : parseRuleValue py v = .str t) : v = .str t := by
  cases v with
  | str s =>
    rw [parseRuleValue] at h
    split at h
    · cases h
    · split at h
      · cases hf : py.float (lower (String.ofList (pyStrip s.toList))) with
        | none => rw [hf] at h; exact h
        | some x =>
          rw [hf] at h
          cases x with
          | finite q => cases h
          | infinite neg => cases h
          | nan => exact h
      · cases hi : py.int (lower (String.ofList (pyStrip s.toList))) with
        | none => rw [hi] at h; exact h
        | some n => rw [hi] at h; cases h
  | _ => exact h

theorem parseRuleValue_idem (v : Value) :
    parseRuleValue py (parseRuleValue py v) = parseRuleValue py v := by
  cases hr : parseRuleValue py v with
  | str t => rw [← parseRuleValue_str hr, hr]; rw [parseRuleValue_str hr]
  | _ => rfl

def Value.IsDouble (v : Value) : Prop := ∀ q, v = .float q → roundF64 q = some q

theorem parseRuleValue_double (py : PyText) (h : v.IsDouble) : (parseRuleValue py v).IsDouble := by
  have hread : ∀ q t, (py.float t).bind F64.toValue = some (.float q) → roundF64 q = some q := by
    intro q t ht
    obtain ⟨x, hx, hv⟩ := Option.bind_eq_some_iff.1 ht
    obtain ⟨cs, -, hcs⟩ := Option.bind_eq_some_iff.1 hx
    cases x with
    | finite r =>
      cases hv
      exact readFloat_double hcs
    | infinite _ => cases hv
    | nan => cases hv
  cases v with
  | str s =>
    intro q hq
    rw [parseRuleValue] at hq
    split at hq
    · cases hq
    · split at hq
      · cases hf : (py.float (lower (String.ofList (pyStrip s.toList)))).bind F64.toValue with
        | none => rw [hf] at hq; cases hq
        | some w => grind
      · cases hi : py.int (lower (String.ofList (pyStrip s.toList))) with
        | none => rw [hi] at hq; cases hq
        | some n => rw [hi] at hq; cases hq
  | _ => exact h

theorem Value.eq_bool (h : v.isBool = true) : ∃ b, v = .bool b := by
  match v with
  | .bool b => exact ⟨b, rfl⟩

section Texts
variable (py : PyText)

theorem coerceNumber_repr {n : ℤ} {r : Option ℚ} (h : coerceNumber py (.int n) = .ok r) :
    coerceNumber py (.str n.repr) = .ok r := by
  have habs : (if decide (n < 0) = true then -((n.natAbs : ℕ) : ℚ) else ((n.natAbs : ℕ) : ℚ)) = n := by
    rw [Nat.cast_natAbs, Int.cast_abs]
    by_cases hn : n < 0
    · simp_all [abs_of_neg]
    · simp_all [abs_of_nonneg]
  show Except.ok ((py.float n.repr).bind F64.toRat) = _
  rw [float_repr, ofDecimal, habs]
  simp only [coerceNumber] at h
  cases hr : roundF64 n with
  | none => rw [hr] at h; cases h
  | some q =>
    rw [hr] at h
    cases h
    rfl

variable {s : String} {v k : Value} {q : ℚ}

theorem coerceNumber_word (h : ∀ c ∈ s.toList, c.toNat < 127 ∧ c ≠ '_' ∧ isSpace c = false)
    (hread : (readFloat s.toList).bind F64.toRat = none) : coerceNumber py (.str s) = .ok none := by
  show Except.ok ((py.float s).bind F64.toRat) = _
  rw [PyText.float, numeral_of_plain py h]
  exact congrArg Except.ok hread

theorem coerceNumber_bracket {c : Char} {cs : List Char} (hs : s.toList = c :: cs)
    (hc : c = '[' ∨ c = '{') : coerceNumber py (.str s) = .ok none := by
  show Except.ok ((py.float s).bind F64.toRat) = _
  rw [float_of_bracket py hs hc]
  rfl

theorem coerceNumber_stringify (hpy : py.Reads) {r : Option ℚ} (hb : v.isBool = false)
    (hv : v.IsDouble) (h : coerceNumber py v = .ok r) :
    coerceNumber py (.str (stringify py v)) = .ok r := by
  match v with
  | .null =>
    cases h
    show coerceNumber py (.str "None") = _
    exact coerceNumber_word py (List.all_iff_forall_prop.1 (by decide)) (by decide)
  | .bool _ => cases hb
  | .int n => exact coerceNumber_repr py h
  | .float q =>
    cases h
    show Except.ok ((py.float (py.floatRepr q)).bind F64.toRat) = _
    rw [hpy.reads q (hv q rfl)]
    rfl
  | .inf true =>
    cases h
    show coerceNumber py (.str "-inf") = _
    exact coerceNumber_word py (List.all_iff_forall_prop.1 (by decide)) (by decide)
  | .inf false =>
    cases h
    show coerceNumber py (.str "inf") = _
    exact coerceNumber_word py (List.all_iff_forall_prop.1 (by decide)) (by decide)
  | .str s => exact h
  | .list vs =>
    cases h
    have hs : (stringify py (.list vs)).toList =
        '[' :: ((", ".intercalate (py.reprs vs)).toList ++ [']']) := by
      simp [stringify, PyText.str, PyText.repr]
    exact coerceNumber_bracket py hs (Or.inl rfl)
  | .dict kvs =>
    cases h
    have hs : (stringify py (.dict kvs)).toList =
        '{' :: ((", ".intercalate (py.reprFields kvs)).toList ++ ['}']) := by
      simp [stringify, PyText.str, PyText.repr]
    exact coerceNumber_bracket py hs (Or.inr rfl)

theorem pyEq_str : pyEq v (.str s) = true ↔ v = .str s := by
  cases v <;> simp [pyEq, Value.numeric]

theorem pyEq_numeric (hk : k.numeric = some q) (h : pyEq v k = true) : v.numeric = some q := by
  cases k <;> simp only [Value.numeric, reduceCtorEq] at hk <;> cases v <;>
    simp_all [pyEq, Value.numeric]

theorem coerceNumber_numeric (hb : v.isBool = false) (hv : v.IsDouble)
    (h : v.numeric = some q) : coerceNumber py v = match roundF64 q with
      | some r => .ok (some r)
      | none => .error .overflowError := by
  match v with
  | .int n =>
    cases h
    rfl
  | .float r =>
    cases h
    rw [hv q rfl]
    rfl
  | .bool _ => cases hb

theorem coerceNumber_ok (h : coerceNumber py v = .ok (some q)) :
    (∃ r, v.numeric = some r) ∨ ∃ s, v = .str s := by
  match v with
  | .int n => exact Or.inl ⟨n, rfl⟩
  | .float r => exact Or.inl ⟨r, rfl⟩
  | .str s => exact Or.inr ⟨s, rfl⟩

theorem coerceNumber_of_pyEq (hb : v.isBool = false) (hkb : k.isBool = false)
    (hv : v.IsDouble) (hk : k.IsDouble) (hq : coerceNumber py k = .ok (some q))
    (h : pyEq v k = true) : coerceNumber py v = .ok (some q) := by
  rcases coerceNumber_ok py hq with ⟨r, hr⟩ | ⟨s, rfl⟩
  · grind -ring -linarith [coerceNumber_numeric, pyEq_numeric]
  · rw [pyEq_str.1 h, hq]

theorem looseEqual_number (hpy : py.Reads) (hkb : k.isBool = false)
    (hv : v.IsDouble) (hk : k.IsDouble) (hq : coerceNumber py k = .ok (some q)) :
    looseEqual py v k = (coerceNumber py v).map (· == some q) := by
  have htext := coerceNumber_stringify py hpy hkb hk hq
  unfold looseEqual
  cases hb : v.isBool with
  | true =>
    obtain ⟨b, rfl⟩ := Value.eq_bool hb
    have hword : coerceNumber py (.str (stringify py (.bool b))) = .ok none := by
      cases b with
      | true =>
        show coerceNumber py (.str "true") = _
        exact coerceNumber_word py (List.all_iff_forall_prop.1 (by decide)) (by decide)
      | false =>
        show coerceNumber py (.str "false") = _
        exact coerceNumber_word py (List.all_iff_forall_prop.1 (by decide)) (by decide)
    have hne : stringify py (.bool b) ≠ stringify py k := by
      intro heq
      rw [heq, htext] at hword
      cases hword
    simp [hkb, hne, coerceNumber, Except.map]
  | false =>
    simp only [hkb, Bool.or_self, Bool.false_eq_true, if_false]
    split
    · grind -ring -linarith [coerceNumber_of_pyEq, Except.map]
    · cases hr : coerceNumber py v with
      | error e => rfl
      | ok r =>
        rw [hq]
        cases r with
        | some a => simp [bind, Except.bind, Except.map]
        | none =>
          have hne : stringify py v ≠ stringify py k := by
            intro heq
            have := coerceNumber_stringify py hpy hb hv hr
            rw [heq, htext] at this
            cases this
          simp [bind, Except.bind, Except.map, hne]

theorem looseEqual_text (hs : coerceNumber py (.str s) = .ok none) :
    looseEqual py v (.str s) = (coerceNumber py v).map fun _ => stringify py v == s := by
  unfold looseEqual
  have hstr : stringify py (.str s) = s := rfl
  cases hb : v.isBool with
  | true =>
    obtain ⟨b, rfl⟩ := Value.eq_bool hb
    simp [hstr, Value.isBool, coerceNumber, Except.map]
  | false =>
    simp only [Value.isBool, Bool.or_self, Bool.false_eq_true, if_false]
    simp_all [pyEq_str, Except.map, bind, Except.bind]

/-- A threshold is the number it is written as, for the evaluation as for `float`, unless it is
    an integer beyond the range. -/
theorem coerceNumber_parse {x : F64} (hb : v.isBool = false) (h : pyFloatOf py v = .ok x) :
    coerceNumber py (parseRuleValue py v) = .ok x.toRat ∨
      (x.toRat = none ∧ coerceNumber py (parseRuleValue py v) = .error .overflowError) := by
  match v with
  | .int n =>
    left
    simp only [pyFloatOf] at h
    show coerceNumber py (.int n) = _
    simp only [coerceNumber]
    cases hr : roundF64 n with
    | none => rw [hr] at h; cases h
    | some q =>
      rw [hr] at h
      cases h
      rfl
  | .float q =>
    cases h
    exact Or.inl rfl
  | .inf neg =>
    cases h
    exact Or.inl rfl
  | .bool _ => cases hb
  | .str s =>
    have hf : py.float s = some x := by
      cases hs : py.float s with
      | none => simp only [pyFloatOf, hs] at h; cases h
      | some y => simp only [pyFloatOf, hs] at h; rw [Except.ok.inj h]
    have hlow := float_lower_strip py hf
    rw [parseRuleValue]
    set t := lower (String.ofList (pyStrip s.toList))
    have hword : ¬ (t = "true" ∨ t = "false") := by
      rintro (ht | ht)
      · rw [ht, float_word py (List.all_iff_forall_prop.1 (by decide)) (by decide)] at hlow
        cases hlow
      · rw [ht, float_word py (List.all_iff_forall_prop.1 (by decide)) (by decide)] at hlow
        cases hlow
    rw [if_neg hword]
    split_ifs with hdot
    · rw [hlow]
      cases x with
      | finite q => exact Or.inl rfl
      | infinite neg => exact Or.inl rfl
      | nan =>
        left
        show Except.ok ((py.float s).bind F64.toRat) = _
        rw [hf]
        rfl
    · cases hint : py.int t with
      | none =>
        left
        show Except.ok ((py.float s).bind F64.toRat) = _
        rw [hf]
        rfl
      | some n =>
        obtain ⟨cs, hcs, hn⟩ := Option.bind_eq_some_iff.1 hint
        split_ifs at hn
        obtain ⟨y, hy, hround⟩ := readFloat_of_readInt hn
        rw [PyText.float, hcs] at hlow
        have hxy : y = x := Option.some.inj (hy.symm.trans hlow)
        rw [hxy] at hround
        show coerceNumber py (.int n) = _ ∨ (_ ∧ coerceNumber py (.int n) = _)
        simp only [coerceNumber]
        grind

end Texts

/-! ### Comparisons, run to their end -/

section Runs
variable {py : PyText} {search : RegexSearch} {actual ft : Value}

variable {e e2 v : Value} {op : Operator} {b : Bool}

theorem compare_numeric {type : String} (ht : typeName ft = .ok type)
    (hb : type ≠ "boolean") (hd : type ≠ "date") (hop : op.isOrder = true ∨ op = .eq) :
    compare py search actual op e e2 ft =
      if op = .eq then looseEqual py actual e else compareNumbers py actual op e e2 := by
  have htyped : compare py search actual op e e2 ft = compareTyped py actual op e e2 ft := by
    cases op <;> simp_all [compare, Operator.isOrder]
  rw [htyped, compareTyped, ht]
  simp only [bind, Except.bind, hb, hd, false_and, if_false]
  cases op <;> simp_all [Operator.isOrder]

theorem compareNumbers_ok (h : compareNumbers py actual op e e2 = .ok b) :
    ∃ a t, coerceNumber py actual = .ok a ∧ coerceNumber py e = .ok t ∧
      (b = true → ∃ q r, a = some q ∧ t = some r) ∧
      (∀ q r, a = some q → t = some r →
        (op ≠ .between ∧ b = ordered op q r none) ∨
        (op = .between ∧ ∃ u, coerceNumber py e2 = .ok u ∧ b = ordered op q r u)) := by
  unfold compareNumbers at h
  obtain ⟨a, ha, h⟩ := bind_eq_ok.1 h
  obtain ⟨t, ht, h⟩ := bind_eq_ok.1 h
  refine ⟨a, t, ha, ht, ?_⟩
  cases a with
  | none =>
    cases h
    exact ⟨by simp, by simp⟩
  | some q =>
    cases t with
    | none =>
      cases h
      exact ⟨by simp, by simp⟩
    | some r =>
      refine ⟨fun _ => ⟨q, r, rfl, rfl⟩, ?_⟩
      rintro q r ⟨⟩ ⟨⟩
      by_cases hop : op = .between
      · simp only [hop, if_true] at h
        obtain ⟨u, hu, h⟩ := bind_eq_ok.1 h
        exact Or.inr ⟨hop, u, hu, by rw [hop]; exact (Except.ok.inj h).symm⟩
      · simp only [hop, if_false] at h
        exact Or.inl ⟨hop, (Except.ok.inj h).symm⟩

theorem looseEqual_bool (v : Value) (b : Bool) :
    looseEqual py v (.bool b) = .ok (stringify py v == stringify py (.bool b)) := by
  unfold looseEqual
  cases hb : v.isBool with
  | true =>
    obtain ⟨a, rfl⟩ := Value.eq_bool hb
    cases a <;> cases b <;> rfl
  | false => simp [Value.isBool]

theorem coerceNumber_boolWord (b : Bool) :
    coerceNumber py (.str (stringify py (.bool b))) = .ok none := by
  cases b with
  | true =>
    show coerceNumber py (.str "true") = _
    exact coerceNumber_word py (List.all_iff_forall_prop.1 (by decide)) (by decide)
  | false =>
    show coerceNumber py (.str "false") = _
    exact coerceNumber_word py (List.all_iff_forall_prop.1 (by decide)) (by decide)

theorem anyLooseEqual_iff {os : List Value} (h : anyLooseEqual py v os = .ok b) :
    b = true ↔ ∃ o ∈ os, looseEqual py v o = .ok true := by
  induction os with
  | nil =>
    cases h
    simp
  | cons o os ih =>
    unfold anyLooseEqual at h
    obtain ⟨a, ha, h⟩ := bind_eq_ok.1 h
    grind

theorem compare_order (hop : op.isOrder = true)
    (hd : typeName ft ≠ .ok "date") (h : compare py search actual op e e2 ft = .ok b) :
    compareNumbers py actual op e e2 = .ok b := by
  have htyped : compareTyped py actual op e e2 ft = .ok b := by
    cases op <;> first | exact h | cases hop
  obtain ⟨type, ht, htyped⟩ := bind_eq_ok.1 htyped
  have hdate : type ≠ "date" := by
    rintro rfl
    exact hd ht
  have hne : ¬ (type = "boolean" ∧ (op = .eq ∨ op = .ne)) := by rintro ⟨-, rfl | rfl⟩ <;> cases hop
  simp_all

theorem compare_equal (hb : typeName ft ≠ .ok "boolean")
    (hd : typeName ft ≠ .ok "date") (h : compare py search actual .eq e e2 ft = .ok b) :
    looseEqual py actual e = .ok b := by
  obtain ⟨type, ht, h⟩ := bind_eq_ok.1 (show compareTyped py actual .eq e e2 ft = .ok b from h)
  simp_all [Operator.isOrder]

theorem compare_unequal (hb : typeName ft ≠ .ok "boolean")
    (hd : typeName ft ≠ .ok "date") (h : compare py search actual .ne e e2 ft = .ok b) :
    looseEqual py actual e = .ok (!b) := by
  obtain ⟨type, ht, h⟩ := bind_eq_ok.1 (show compareTyped py actual .ne e e2 ft = .ok b from h)
  have hbool : type ≠ "boolean" := by
    rintro rfl
    exact hb ht
  have hdate : type ≠ "date" := by
    rintro rfl
    exact hd ht
  simp only [hbool, hdate, Operator.isOrder, false_and, if_false, Bool.false_eq_true,
    reduceCtorEq, if_true] at h
  obtain ⟨x, hx, rfl⟩ := map_eq_ok.1 h
  rw [hx, Bool.not_not]

theorem anyLooseEqual_false {os : List Value} (h : anyLooseEqual py v os = .ok false) :
    ∀ o ∈ os, looseEqual py v o = .ok false := by
  induction os with
  | nil => exact fun _ ho => nomatch ho
  | cons o os ih => simp_all [anyLooseEqual, bind_eq_ok]

theorem looseEqual_written (hpy : py.Reads) {o : Value} (hv : v.IsDouble) (ho : o.IsDouble)
    (hb : o.isBool = false) (h : stringify py v = py.str o)
    (heq : looseEqual py v o = .ok b) : b = true := by
  have htext : stringify py o = py.str o := by
    cases o with
    | bool _ => cases hb
    | _ => rfl
  unfold looseEqual at heq
  cases hvb : v.isBool with
  | true => simp_all
  | false =>
    simp only [hvb, hb, Bool.or_self, Bool.false_eq_true, if_false] at heq
    split at heq
    · exact (Except.ok.inj heq).symm
    · obtain ⟨x, hx, heq⟩ := bind_eq_ok.1 heq
      obtain ⟨y, hy, heq⟩ := bind_eq_ok.1 heq
      have hxy : x = y := by
        have hx' := coerceNumber_stringify py hpy hvb hv hx
        have hy' := coerceNumber_stringify py hpy hb ho hy
        rw [h, ← htext] at hx'
        exact Except.ok.inj (hx'.symm.trans hy')
      grind

theorem compare_dates (hd : typeName ft = .ok "date")
    (hop : op.isOrder = true ∨ op = .eq ∨ op = .ne) :
    compare py search actual op e e2 ft = .ok (compareDates py actual op e e2) := by
  have htyped : compare py search actual op e e2 ft = compareTyped py actual op e e2 ft := by
    cases op <;> simp_all [compare, Operator.isOrder]
  rw [htyped, compareTyped, hd]
  simp [bind, Except.bind]

theorem compare_booleans (hb : typeName ft = .ok "boolean") (hop : op = .eq ∨ op = .ne) :
    compare py search actual op e e2 ft =
      .ok ((toBool py actual == toBool py e) == decide (op = .eq)) := by
  rcases hop with rfl | rfl
  · simp [compare, compareTyped, hb, bind, Except.bind]
  · simp [compare, compareTyped, hb, bind, Except.bind]

end Runs

end RuleMind
