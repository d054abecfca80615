/-
  `compare` of the Rust core on raw thresholds.

  The values are those that `serde_json` parses.  What it writes for a number, a list or an
  object is a parameter, and so is the search of the `regex` crate.
-/
import RuleMind.Compare

namespace RuleMind.RustCore

open Text

/-! ### Values -/

/-- A number of `serde_json`: an integer of 64 bits, or a double. -/
inductive Number
  | int (n : ℤ)
  | float (q : ℚ)
  deriving DecidableEq

def number : Value → Option Number
  | .int n => if -2 ^ 63 ≤ n ∧ n < 2 ^ 64 then some (.int n) else (roundF64 n).map .float
  | .float q => some (.float q)
  | _ => none

/-- `as_f64`. -/
def Number.toF64 : Number → Option ℚ
  | .int n => roundF64 n
  | .float q => some q

mutual

/-- `a == b`: the entries of an object have no order. -/
def valueEq : Value → Value → Bool
  | .null, .null => true
  | .bool a, .bool b => a == b
  | .str a, .str b => a == b
  | .list as, .list bs => valueEqList as bs
  | .dict as, .dict bs => as.length == bs.length && valueEqFields as bs
  | .int a, b => (number b).any fun n => number (.int a) == some n
  | .float a, b => (number b).any fun n => number (.float a) == some n
  | _, _ => false

def valueEqList : List Value → List Value → Bool
  | [], [] => true
  | a :: as, b :: bs => valueEq a b && valueEqList as bs
  | _, _ => false

def valueEqFields : List (String × Value) → List (String × Value) → Bool
  | [], _ => true
  | (k, a) :: as, bs => (match bs.lookup k with
    | some b => valueEq a b
    | none => false) && valueEqFields as bs

end

/-- `s.trim().parse::<f64>()`, unless it is infinite or not a number. -/
def numberText (s : String) : Option ℚ := (readFloat (trim s.toList)).bind F64.toRat

def toNumber : Value → Option ℚ
  | .str s => numberText s
  | v => (number v).bind Number.toF64

def toBool : Value → Bool
  | .bool b => b
  | .str s => lower (String.ofList (trim s.toList)) ∈ ["true", "1", "yes"]
  | v => ((number v).bind Number.toF64).any (· ≠ 0)

section Texts
variable (json : Value → String)

def valueToString : Value → String
  | .str s => s
  | .null => ""
  | .bool b => if b then "true" else "false"
  | v => json v

def looseEqual (a b : Value) : Bool :=
  if valueEq a b then true
  else if a.isNull || b.isNull then false
  else match toNumber a, toNumber b with
    | some x, some y => x == y
    | _, _ => valueToString json a == valueToString json b

def optionList : Value → List Value
  | .list vs => vs
  | .null => []
  | v => (((splitComma (valueToString json v).toList).map trim).filter (· ≠ [])).map
      fun cs => .str (String.ofList cs)

/-! ### Dates -/

/-- `parse::<i64>()`. -/
def parseI64 (cs : List Char) : Option ℤ := (readInt cs).filter fun n => -2 ^ 63 ≤ n ∧ n < 2 ^ 63

def isSign (c : Char) : Bool := c == '+' || c == '-'

/-- The time without its zone, and the zone: from the first `Z`, or from the last sign. -/
def splitZone (cs : List Char) : List Char × Option (List Char) :=
  if 'Z' ∈ cs then (cs.takeWhile (· ≠ 'Z'), none)
  else match cs.reverse.dropWhile (!isSign ·) with
    | [] => (cs, none)
    | sign :: time => (time.reverse, some (sign :: (cs.reverse.takeWhile (!isSign ·)).reverse))

def zoneOffset : Option (List Char) → Option ℤ
  | none => some 0
  | some tz =>
    let digits := tz.filter Char.isDigit
    if digits.length ≠ 4 then none
    else
      let magnitude : ℤ := digitsValue (digits.take 2) * 3600 + digitsValue (digits.drop 2) * 60
      some (if tz.head? = some '+' then -magnitude else magnitude)

/-- The hour, the minute, the second and the offset. -/
def timeOfDay (cs : List Char) : Option (ℤ × ℤ × ℤ × ℤ) := do
  let (time, tz) := splitZone cs
  match (time.takeWhile (· ≠ '.')).splitOn ':' with
  | [hour, minute] => do
    let h ← parseI64 hour
    let m ← parseI64 minute
    let offset ← zoneOffset tz
    some (h, m, 0, offset)
  | [hour, minute, second] => do
    let h ← parseI64 hour
    let m ← parseI64 minute
    let s ← parseI64 second
    let offset ← zoneOffset tz
    some (h, m, s, offset)
  | _ => none

def datePart (cs : List Char) : Option (ℤ × ℤ × ℤ) :=
  match cs.splitOn '-' with
  | [year, month, day] => do
    if (String.ofList year).utf8ByteSize ≠ 4 then none
    else
      let y ← parseI64 year
      let m ← parseI64 month
      let d ← parseI64 day
      some (y, m, d)
  | _ => none

/-- The epoch of a date and a time within their ranges; the year has no minus sign. -/
def epoch (year month day hour minute second offset : ℤ) : Option ℤ :=
  if 1 ≤ month ∧ month ≤ 12 ∧ 1 ≤ day ∧ day ≤ daysInMonth year.toNat month.toNat ∧
      0 ≤ hour ∧ hour ≤ 23 ∧ 0 ≤ minute ∧ minute ≤ 59 ∧ 0 ≤ second ∧ second ≤ 59 then
    some (daysFromCivil year month day * 86400 + hour * 3600 + minute * 60 + second + offset)
  else none

def dateToEpoch (v : Value) : Option ℤ :=
  if v.isBool || v.isNull then none
  else do
    let cs := trim (valueToString json v).toList
    let (year, month, day) ← datePart (cs.takeWhile fun c => c ≠ 'T' && c ≠ ' ')
    match cs.dropWhile fun c => c ≠ 'T' && c ≠ ' ' with
    | [] => epoch year month day 0 0 0 0
    | _ :: time => do
      let (hour, minute, second, offset) ← timeOfDay time
      epoch year month day hour minute second offset

def REGEX_INPUT_MAX : ℕ := 4096

/-- `eq_ignore_ascii_case`. -/
def declared (fieldType : Option String) (name : String) : Bool := fieldType.map lower == some name

/-- A comparison of what was read; the bound of `between` is the last one. -/
def holds (op : Operator) {α : Type} [LinearOrder α] (a e upper : Option α) : Bool :=
  match a, e with
  | some a, some e => ordered op a e upper
  | _, _ => false

def compareTyped (actual : Value) (op : Operator) (expected expected2 : Value)
    (fieldType : Option String) : Bool :=
  if declared fieldType "boolean" ∧ (op = .eq ∨ op = .ne) then
    let matched := toBool actual == toBool expected
    if op = .eq then matched else !matched
  else if declared fieldType "date" then
    holds op (dateToEpoch json actual) (dateToEpoch json expected) (dateToEpoch json expected2)
  else if op.isOrder then holds op (toNumber actual) (toNumber expected) (toNumber expected2)
  else if op = .eq then looseEqual json actual expected
  else if op = .ne then !looseEqual json actual expected
  else false

/-- `compare`; `isMatch` is the search of the `regex` crate, false for an invalid pattern. -/
def compare (isMatch : String → String → Bool) (actual : Value) (op : Operator)
    (expected expected2 : Value) (fieldType : Option String) : Bool :=
  match op with
  | .exists => !actual.isNull && valueToString json actual != ""
  | .notExists => actual.isNull || valueToString json actual == ""
  | .isIn => (optionList json expected).any (looseEqual json actual)
  | .notIn => !(optionList json expected).any (looseEqual json actual)
  | .regex => !actual.isNull && decide ((valueToString json actual).length ≤ REGEX_INPUT_MAX) &&
      isMatch (valueToString json expected) (valueToString json actual)
  | op => compareTyped json actual op expected expected2 fieldType

end Texts

/-! ### What both engines parse -/

mutual

def parses : Value → Bool
  | .null | .bool _ | .str _ => true
  | .int n => (roundF64 n).isSome
  | .float q => roundF64 q == some q
  | .inf _ => false
  | .list vs => parsesList vs
  | .dict kvs => parsesFields kvs

def parsesList : List Value → Bool
  | [] => true
  | v :: vs => parses v && parsesList vs

def parsesFields : List (String × Value) → Bool
  | [] => true
  | (_, v) :: kvs => parses v && parsesFields kvs

end

/-- A number is written so that it reads as itself; lists and objects begin with a bracket. -/
structure Writes (json : Value → String) : Prop where
  int : ∀ (n : ℤ) q, roundF64 n = some q → numberText (json (.int n)) = some q
  float : ∀ q, roundF64 q = some q → numberText (json (.float q)) = some q
  list : ∀ vs, ∃ cs, (json (.list vs)).toList = '[' :: cs
  dict : ∀ kvs, ∃ cs, (json (.dict kvs)).toList = '{' :: cs

def isContainer : Value → Bool
  | .list _ | .dict _ => true
  | _ => false

section Same
variable (json : Value → String)

/-- Written alike in Rust, where null is apart, or equal lists or objects. -/
def RustSameWords (a e : Value) : Prop :=
  (a.isNull = e.isNull ∧ valueToString json a = valueToString json e) ∨
    (isContainer a ∧ valueEq a e)

/-- What `loose_equal` makes equal. -/
def RustSame (a e : Value) : Prop :=
  match toNumber a, toNumber e with
  | some q, some r => q = r
  | none, none => RustSameWords json a e
  | _, _ => False

end Same

/-! ### What Rust reads as a number -/

variable {s : String} {q : ℚ} {n : Number}

theorem float_of_numberText (py : PyText) (h : numberText s = some q) :
    py.float s = some (.finite q) := by
  obtain ⟨x, hx, hq⟩ := Option.bind_eq_some_iff.1 h
  have hfinite : x = .finite q := by
    cases x <;> cases hq
    rfl
  rw [hfinite] at hx
  have hcore : py.numeral (String.ofList (trim s.toList)) = some (trim s.toList) := by
    have hplain := numeral_of_plain py (s := String.ofList (trim s.toList)) fun c hc =>
      plain_of_inDecimal (inDecimal_of_readFloat hx c (by simpa using hc))
    simpa using hplain
  have hsame : py.numeral s = py.numeral (String.ofList (trim s.toList)) := by
    rw [numeral_eq, numeral_eq, String.toList_ofList]
    unfold trim
    rw [trimBy_idem]
  rw [PyText.float, hsame, hcore]
  exact hx

theorem numberText_bracket {c : Char} {cs : List Char} (hs : s.toList = c :: cs)
    (hc : c = '[' ∨ c = '{') : numberText s = none := by
  cases hn : numberText s with
  | none => rfl
  | some q =>
    have hread := float_of_numberText asciiText hn
    rw [float_of_bracket asciiText hs hc] at hread
    cases hread

theorem numberText_word (b : Bool) : numberText (if b then "true" else "false") = none := by
  cases b with
  | true =>
    have htrim : trim "true".toList = ['t', 'r', 'u', 'e'] := by decide
    show (readFloat (trim "true".toList)).bind F64.toRat = none
    simp_all [readFloat_eq_none]
  | false =>
    have htrim : trim "false".toList = ['f', 'a', 'l', 's', 'e'] := by decide
    show (readFloat (trim "false".toList)).bind F64.toRat = none
    simp_all [readFloat_eq_none]

theorem toNumber_int (n : ℤ) : toNumber (.int n) = roundF64 n := by
  show (number (.int n)).bind Number.toF64 = _
  rw [number]
  split
  · rfl
  · cases roundF64 (n : ℚ) with
    | none => rfl
    | some q => rfl

section Rust
variable {json : Value → String} (hjson : Writes json)
include hjson

theorem numberText_valueToString {v : Value} (hv : parses v = true) (hnull : v.isNull = false) :
    numberText (valueToString json v) = toNumber v := by
  cases v with
  | null => cases hnull
  | bool b => exact numberText_word b
  | int n =>
    obtain ⟨q, hq⟩ := Option.isSome_iff_exists.1 hv
    rw [toNumber_int, hq]
    exact hjson.int n q hq
  | float q => exact hjson.float q (eq_of_beq hv)
  | inf neg => cases hv
  | str s => rfl
  | list vs =>
    obtain ⟨cs, hcs⟩ := hjson.list vs
    exact numberText_bracket hcs (.inl rfl)
  | dict kvs =>
    obtain ⟨cs, hcs⟩ := hjson.dict kvs
    exact numberText_bracket hcs (.inr rfl)

theorem valueToString_injective_number {a b : Value} (ha : parses a = true) (hb : parses b = true)
    (hna : a.isNull = false) (hnb : b.isNull = false)
    (h : valueToString json a = valueToString json b) : toNumber a = toNumber b := by
  grind -ring -linarith [numberText_valueToString]

end Rust

/-! ### Equality in Rust -/

variable {v a b : Value}

theorem toNumber_of_number (h : number v = some n) : toNumber v = n.toF64 := by
  cases v with
  | int _ =>
    show (number (.int _)).bind Number.toF64 = _
    rw [h]
    rfl
  | float _ =>
    cases h
    rfl
  | _ => cases h

theorem number_of_valueEq (ha : number a = some n)
    (h : valueEq a b = true) : number b = some n := by
  cases a with
  | int _ | float _ =>
    rw [valueEq, ha] at h
    cases hb : number b with
    | none => rw [hb] at h; cases h
    | some k => simp_all
  | _ => cases ha

theorem toNumber_of_valueEq (h : valueEq a b = true) : toNumber a = toNumber b := by
  cases hn : number a with
  | some n => rw [toNumber_of_number hn, toNumber_of_number (number_of_valueEq hn h)]
  | none =>
    cases a with
    | int m => simp_all [valueEq]
    | float q => cases hn
    | str s =>
      cases b with
      | str u => rw [eq_of_beq (show (s == u) = true from h)]
      | _ => cases h
    | null =>
      cases b with
      | null => rfl
      | _ => cases h
    | bool x =>
      cases b with
      | bool y => rfl
      | _ => cases h
    | inf neg => cases h
    | list vs =>
      cases b with
      | list ws => rfl
      | _ => cases h
    | dict kvs =>
      cases b with
      | dict lws => rfl
      | _ => cases h

theorem isNull_container (h : isContainer v = true) : v.isNull = false := by
  cases v with
  | list vs => rfl
  | dict kvs => rfl
  | _ => cases h

theorem rustSame_of_valueEq (json : Value → String) (ha : parses a = true)
    (h : valueEq a b = true) : RustSame json a b := by
  have hnumber := toNumber_of_valueEq h
  unfold RustSame
  rw [← hnumber]
  cases hq : toNumber a with
  | some q => rfl
  | none =>
    cases a with
    | int n =>
      obtain ⟨q, hn⟩ := Option.isSome_iff_exists.1 ha
      rw [toNumber_int, hn] at hq
      cases hq
    | float q => cases hq
    | inf neg => cases ha
    | list vs => exact .inr ⟨rfl, h⟩
    | dict kvs => exact .inr ⟨rfl, h⟩
    | null =>
      cases b with
      | null => exact .inl ⟨rfl, rfl⟩
      | _ => cases h
    | bool x =>
      cases b with
      | bool y =>
        rw [eq_of_beq (show (x == y) = true from h)]
        exact .inl ⟨rfl, rfl⟩
      | _ => cases h
    | str s =>
      cases b with
      | str u =>
        rw [eq_of_beq (show (s == u) = true from h)]
        exact .inl ⟨rfl, rfl⟩
      | _ => cases h

theorem isNull_of_number (h : toNumber v = some q) : v.isNull = false := by
  cases v with
  | null => cases h
  | _ => rfl

theorem eq_null (h : v.isNull = true) : v = .null := by
  cases v with
  | null => rfl
  | _ => cases h

theorem isNull_of_rustSame (json : Value → String) (h : RustSame json a b) :
    a.isNull = b.isNull := by
  unfold RustSame at h
  split at h
  · next ha hb => rw [isNull_of_number ha, isNull_of_number hb]
  · rcases h with ⟨hnull, -⟩ | ⟨hc, heq⟩
    · exact hnull
    · rw [isNull_container hc]
      cases b with
      | null =>
        cases a with
        | list vs => cases heq
        | dict kvs => cases heq
        | _ => cases hc
      | _ => rfl
  · cases h

theorem looseEqual_iff {json : Value → String} (hjson : Writes json)
    (ha : parses a = true) (hb : parses b = true) :
    looseEqual json a b = true ↔ RustSame json a b := by
  unfold looseEqual
  cases heq : valueEq a b with
  | true => exact ⟨fun _ => rustSame_of_valueEq json ha heq, fun _ => rfl⟩
  | false =>
    have hcontainer : ¬ (isContainer a = true ∧ valueEq a b = true) := by simp [heq]
    rw [if_neg (by simp)]
    by_cases hnull : (a.isNull || b.isNull) = true
    · rw [if_pos hnull]
      refine iff_of_false (by simp) fun h => ?_
      have hsame := isNull_of_rustSame json h
      rw [hsame, Bool.or_self] at hnull
      rw [eq_null hnull, eq_null (hsame.trans hnull)] at heq
      cases heq
    · rw [if_neg hnull]
      obtain ⟨hna, hnb⟩ : a.isNull = false ∧ b.isNull = false := by simpa using hnull
      have htext := valueToString_injective_number hjson ha hb hna hnb
      unfold RustSame
      cases hqa : toNumber a with
      | some q => grind
      | none => grind [RustSameWords]

end RuleMind.RustCore
