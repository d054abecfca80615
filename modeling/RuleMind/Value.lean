/-
  JSON values as both engines see them: Python objects on one side,
  `serde_json::Value` on the other.

  Numbers are exact: an integer, or the rational a float stands for; an infinity
  is no JSON value, but Python reads one off a text beyond the range of a float.
  An object is the list of its entries; a key occurs once.  What Python's `str`
  writes for a float, and its tables of printable characters and decimal digits,
  belong to the interpreter and are parameters (`PyText`).
-/
import RuleMind.Lib.FloatText

namespace RuleMind

inductive Value
  | null
  | bool (b : Bool)
  | int (n : Int)
  | float (q : ℚ)
  | inf (neg : Bool)
  | str (s : String)
  | list (vs : List Value)
  | dict (kvs : List (String × Value))

namespace Value

/-! ### Equality -/

mutual

def same : Value → Value → Bool
  | .null, .null => true
  | .bool a, .bool b => a == b
  | .int a, .int b => a == b
  | .float a, .float b => a == b
  | .inf a, .inf b => a == b
  | .str a, .str b => a == b
  | .list as, .list bs => sameList as bs
  | .dict as, .dict bs => sameFields as bs
  | _, _ => false

def sameList : List Value → List Value → Bool
  | [], [] => true
  | a :: as, b :: bs => same a b && sameList as bs
  | _, _ => false

def sameFields : List (String × Value) → List (String × Value) → Bool
  | [], [] => true
  | (k, a) :: as, (l, b) :: bs => k == l && (same a b && sameFields as bs)
  | _, _ => false

end

mutual

theorem same_iff (a b : Value) : same a b = true ↔ a = b := by
  match a with
  | .null | .bool _ | .int _ | .float _ | .inf _ | .str _ => cases b <;> simp [same]
  | .list as => cases b <;> simp [same, sameList_iff]
  | .dict as => cases b <;> simp [same, sameFields_iff]

theorem sameList_iff (as bs : List Value) : sameList as bs = true ↔ as = bs := by
  match as, bs with
  | [], [] | [], _ :: _ | _ :: _, [] => simp [sameList]
  | a :: as, b :: bs => simp [sameList, same_iff a b, sameList_iff as bs]

theorem sameFields_iff (as bs : List (String × Value)) : sameFields as bs = true ↔ as = bs := by
  match as, bs with
  | [], [] | [], _ :: _ | _ :: _, [] => simp [sameFields]
  | (k, a) :: as, (l, b) :: bs => simp [sameFields, same_iff a b, sameFields_iff as bs, and_assoc]

end

instance : DecidableEq Value := fun a b => decidable_of_iff _ (same_iff a b)

/-! ### Access -/

/-- `value.get(key)` on an object; nothing on other values. -/
def field (key : String) : Value → Option Value
  | .dict kvs => kvs.lookup key
  | _ => none

def asStr : Value → Option String
  | .str s => some s
  | _ => none

def asList : Value → Option (List Value)
  | .list vs => some vs
  | _ => none

def asDict : Value → Option (List (String × Value))
  | .dict kvs => some kvs
  | _ => none

def isNull : Value → Bool
  | .null => true
  | _ => false

def truthy : Value → Bool
  | .null => false
  | .bool b => b
  | .int n => n != 0
  | .float q => q != 0
  | .inf _ => true
  | .str s => s != ""
  | .list vs => !vs.isEmpty
  | .dict kvs => !kvs.isEmpty

/-- `a or b`, where `a` may be missing. -/
def orElse (a : Option Value) (b : Value) : Value :=
  match a with
  | some v => if v.truthy then v else b
  | none => b

variable {v w : Value} {a : Option Value}

theorem orElse_of_any {b : Value} (ha : a = some v) (hv : v.truthy = true) : orElse a b = v := by
  rw [ha, orElse, if_pos hv]

theorem orElse_of_not_any (b : Value) (ha : a.any truthy = false) : orElse a b = b := by
  cases a with
  | none => rfl
  | some v => rw [orElse, if_neg (by simpa using ha)]

theorem field_eq_some {key : String} (h : v.field key = some w) :
    ∃ kvs, v = .dict kvs ∧ kvs.lookup key = some w := by
  match v with
  | .dict kvs => exact ⟨kvs, rfl, h⟩

theorem truthy_of_field {key : String} (h : v.field key = some w) : v.truthy = true := by
  obtain ⟨kvs, rfl, hk⟩ := field_eq_some h
  cases kvs with
  | nil => cases hk
  | cons _ _ => rfl

end Value

abbrev Dict := List (String × Value)

/-- `d[key] = value`. -/
def setKey : Dict → String → Value → Dict
  | [], key, v => [(key, v)]
  | (k, w) :: kvs, key, v => if k = key then (key, v) :: kvs else (k, w) :: setKey kvs key v

theorem lookup_setKey (d : Dict) (key : String) (v : Value) (k : String) :
    (setKey d key v).lookup k = if k = key then some v else d.lookup k := by
  induction d with
  | nil => grind [setKey]
  | cons e d ih => grind [setKey]

variable {d : Dict} {key : String}

theorem setKey_same {v : Value} (h : d.lookup key = some v) : setKey d key v = d := by
  induction d with
  | nil => cases h
  | cons e d ih =>
    obtain ⟨k, w⟩ := e
    by_cases hk : k = key
    · simp_all [setKey]
    · grind [setKey]

theorem setKey_new (h : key ∉ d.map Prod.fst) (v : Value) : setKey d key v = d ++ [(key, v)] := by
  induction d with
  | nil => rfl
  | cons e d ih =>
    obtain ⟨k, w⟩ := e
    rw [List.map_cons, List.mem_cons, not_or] at h
    rw [setKey, if_neg (Ne.symm h.1), ih h.2]
    rfl

theorem setKey_setKey (d : Dict) (key : String) (v w : Value) :
    setKey (setKey d key v) key w = setKey d key w := by
  induction d with
  | nil => simp [setKey]
  | cons e d ih => grind [setKey]

theorem keys_setKey (h : key ∈ d.map Prod.fst) (v : Value) :
    (setKey d key v).map Prod.fst = d.map Prod.fst := by
  induction d with
  | nil => cases h
  | cons e d ih => grind [setKey]

theorem mem_setKey {v : Value} {kv : String × Value}
    (h : kv ∈ setKey d key v) : kv ∈ d ∨ kv = (key, v) := by
  induction d with
  | nil => exact .inr (List.mem_singleton.1 h)
  | cons e d ih => grind [setKey]

theorem nodup_setKey (h : (d.map Prod.fst).Nodup) (key : String) (v : Value) :
    ((setKey d key v).map Prod.fst).Nodup ∧
      ∀ k ∈ (setKey d key v).map Prod.fst, k = key ∨ k ∈ d.map Prod.fst := by
  induction d with
  | nil => simp [setKey]
  | cons e d ih =>
    obtain ⟨l, w⟩ := e
    obtain ⟨hfresh, hd⟩ := List.nodup_cons.1 h
    obtain ⟨hnodup, hmem⟩ := ih hd
    by_cases hl : l = key
    · subst hl
      simp only [setKey, if_pos]
      grind
    · simp only [setKey, if_neg hl, List.map_cons, List.nodup_cons, List.mem_cons]
      grind

/-- `d.update(e)`. -/
def updateKeys (d e : Dict) : Dict := e.foldl (fun d kv => setKey d kv.1 kv.2) d

/-- What Python raises, as far as it is told apart. -/
inductive PyError
  | attributeError
  | typeError
  | valueError
  | overflowError
  | actionFailed
  | recursionError
  | depthExceeded
  deriving DecidableEq, Repr

/-! ### Python's `str` -/

structure PyText where
  floatRepr : ℚ → String
  printable : Char → Bool
  decimal : Char → Option (Fin 10)

/-- An interpreter that prints ASCII, for texts without floats. -/
def asciiText : PyText := ⟨fun _ => "0.0", fun c => 0x20 ≤ c.toNat && c.toNat < 0x7f, fun _ => none⟩

namespace PyText
variable (py : PyText)

def hexDigits (width n : ℕ) : String :=
  String.ofList ((List.range width).reverse.map fun i =>
    "0123456789abcdef".toList.getD (n / 16 ^ i % 16) '0')

def escapeChar (quote c : Char) : String :=
  if c = quote ∨ c = '\\' then String.ofList ['\\', c]
  else if c = '\n' then "\\n"
  else if c = '\r' then "\\r"
  else if c = '\t' then "\\t"
  else if py.printable c then String.ofList [c]
  else if c.toNat < 0x100 then "\\x" ++ hexDigits 2 c.toNat
  else if c.toNat < 0x10000 then "\\u" ++ hexDigits 4 c.toNat
  else "\\U" ++ hexDigits 8 c.toNat

/-- `repr` of a string: in single quotes, unless only a double quote avoids escaping. -/
def reprStr (s : String) : String :=
  let quote := if s.toList.contains '\'' && !s.toList.contains '"' then '"' else '\''
  String.ofList [quote] ++ String.join (s.toList.map (py.escapeChar quote)) ++ String.ofList [quote]

mutual

def repr : Value → String
  | .null => "None"
  | .bool b => if b then "True" else "False"
  | .int n => n.repr
  | .float q => py.floatRepr q
  | .inf neg => if neg then "-inf" else "inf"
  | .str s => py.reprStr s
  | .list vs => "[" ++ ", ".intercalate (reprs vs) ++ "]"
  | .dict kvs => "\x7b" ++ ", ".intercalate (reprFields kvs) ++ "\x7d"

def reprs : List Value → List String
  | [] => []
  | v :: vs => repr v :: reprs vs

def reprFields : List (String × Value) → List String
  | [] => []
  | (k, v) :: kvs => (py.reprStr k ++ ": " ++ repr v) :: reprFields kvs

end

def str : Value → String
  | .str s => s
  | v => py.repr v

end PyText

/-! ### Reading numbers off texts -/

open Text

/-- What `str.strip` takes off the ends. -/
def pySpace (c : Char) : Bool := isSpace c || (0x1c ≤ c.toNat && c.toNat ≤ 0x1f)

def pyStrip (cs : List Char) : List Char := trimBy pySpace cs

/-- Underscores stand between digits, and go; the first argument is the character before. -/
def dropUnderscores : Char → List Char → Option (List Char)
  | _, [] => some []
  | prev, c :: cs =>
    if c = '_' then
      if prev.isDigit && cs.head?.any Char.isDigit then dropUnderscores c cs else none
    else (dropUnderscores c cs).map (c :: ·)

namespace PyText
variable (py : PyText)

/-- Other spaces and digits become the ASCII ones before a number is read. -/
def ascii (c : Char) : Char :=
  if c.toNat < 127 then c
  else if isSpace c then ' '
  else match py.decimal c with
    | some d => Char.ofNat (48 + d)
    | none => '?'

/-- The text `float` and `int` read, without its underscores. -/
def numeral (s : String) : Option (List Char) := dropUnderscores '\x00' (trim (s.toList.map py.ascii))

/-- `float(s)`; nothing for a `ValueError`. -/
def float (s : String) : Option F64 := (py.numeral s).bind readFloat

/-- `int(s)`; nothing for a `ValueError`, which more than 4300 digits give too. -/
def int (s : String) : Option ℤ :=
  (py.numeral s).bind fun cs => if (sign cs).2.length ≤ 4300 then readInt cs else none

end PyText

/-- `str.upper` and `to_uppercase`, as far as a comparison with ASCII letters goes. -/
def upper (s : String) : String := String.ofList (s.toList.map Char.toUpper)

/-- `str.lower` and `to_lowercase`, as far as a comparison with ASCII letters goes. -/
def lower (s : String) : String := String.ofList (s.toList.map Char.toLower)

/-- `float(value)`. -/
def pyFloatOf (py : PyText) : Value → Except PyError F64
  | .int n => match Text.roundF64 n with
    | some q => .ok (.finite q)
    | none => .error .overflowError
  | .bool b => .ok (.finite (if b then 1 else 0))
  | .float q => .ok (.finite q)
  | .inf neg => .ok (.infinite neg)
  | .str s => match py.float s with
    | some x => .ok x
    | none => .error .valueError
  | .null | .list _ | .dict _ => .error .typeError

/-- `int(value)`. -/
def pyIntOf (py : PyText) : Value → Except PyError ℤ
  | .int n => .ok n
  | .bool b => .ok (if b then 1 else 0)
  | .float q => .ok (Int.tdiv q.num q.den)
  | .inf _ => .error .overflowError
  | .str s => match py.int s with
    | some n => .ok n
    | none => .error .valueError
  | .null | .list _ | .dict _ => .error .typeError

/-- `int(x)` for a float. -/
def truncF64 : F64 → Except PyError ℤ
  | .finite q => .ok (Int.tdiv q.num q.den)
  | .infinite _ => .error .overflowError
  | .nan => .error .valueError

def F64.toValue : F64 → Option Value
  | .finite q => some (.float q)
  | .infinite neg => some (.inf neg)
  | .nan => none

/-- `parse_rule_value`: a text that reads true, false or as a number stands for it. -/
def parseRuleValue (py : PyText) : Value → Value
  | .str s =>
    let lowered := lower (String.ofList (pyStrip s.toList))
    if lowered = "true" ∨ lowered = "false" then .bool (lowered == "true")
    else if '.' ∈ lowered.toList then ((py.float lowered).bind F64.toValue).getD (.str s)
    else ((py.int lowered).map Value.int).getD (.str s)
  | v => v

end RuleMind
