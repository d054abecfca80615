/-
  What comes out of a formula on the server, whatever it is made of: `evaluate_formula` of
  `app/safe_formula.py` and `_evaluate_formula` of `app/logic.py`.

  Here a formula is any syntax tree that Python's parser may give, values are any objects, and an
  operator, a comparison, a test or a function may raise.
-/
import RuleMind.SafeFormula

namespace RuleMind.FormulaErrors

open Formula (BinOp UnaryOp BoolOp CmpOp)

/-! ### Syntax trees -/

/-- `Constant.value`; the other ones are bytes, complex numbers and the ellipsis. -/
inductive Literal
  | none
  | bool (b : Bool)
  | int (n : ℤ)
  | float (q : ℚ)
  | inf
  | str (s : String)
  | other

/-- `BinOp.op`: in `_BIN_OPS`, or one of the others by its name. -/
inductive Operator
  | allowed (op : BinOp)
  | other (kind : String)

/-- An expression of `ast`.  Of a unary operator and of a comparison outside the tables nothing
    is kept, and of a node that no method visits its kind. -/
inductive Node
  | constant (value : Literal)
  | name (id : String)
  | binOp (left : Node) (op : Operator) (right : Node)
  | unaryOp (op : Option UnaryOp) (operand : Node)
  | boolOp (op : BoolOp) (values : List Node)
  | compare (left : Node) (rest : List (Option CmpOp × Node))
  | ifExp (test body orelse : Node)
  | call (func : Node) (args : List Node) (keywords : Bool)
  | list (elts : List Node)
  | tuple (elts : List Node)
  | other (kind : String)

/-- `type(op).__name__`. -/
def opName : BinOp → String
  | .add => "Add"
  | .sub => "Sub"
  | .mult => "Mult"
  | .div => "Div"
  | .floorDiv => "FloorDiv"
  | .mod => "Mod"
  | .pow => "Pow"

variable {Obj Exc : Type}

/-- What an evaluation raises: a `FormulaError`, or something else. -/
inductive Failure (Exc : Type)
  | formula (text : String)
  | other (e : Exc)

structure Objects (Obj Exc : Type) where
  literal : Literal → Obj
  list : List Obj → Obj
  tuple : List Obj → Obj
  binary : BinOp → Obj → Obj → Except (Failure Exc) Obj
  unary : UnaryOp → Obj → Except (Failure Exc) Obj
  compare : CmpOp → Obj → Obj → Except (Failure Exc) Obj
  /-- `bool(value)`. -/
  truth : Obj → Except (Failure Exc) Bool
  /-- It is an integer or a float above a bound. -/
  numberAbove : ℤ → Obj → Bool
  /-- It is an integer above a bound. -/
  intAbove : ℤ → Obj → Bool
  isStr : Obj → Bool
  /-- `str(exc)`. -/
  text : Exc → String
  /-- What a call raises at the end of the stack. -/
  recursionError : Exc

abbrev Functions (Obj Exc : Type) := String → Option (List Obj → Except (Failure Exc) Obj)

/-! ### The evaluator -/

section Evaluator
variable (O : Objects Obj Exc)

def MAX_POW_EXPONENT : ℤ := 1000

def MAX_STRING_MULTIPLY : ℤ := 100000

/-- What `_visit_BinOp` refuses before it applies an operator. -/
def refusal (op : BinOp) (left right : Obj) : Option String :=
  if op = .pow ∧ O.numberAbove MAX_POW_EXPONENT right = true then some "exponent too large"
  else if op = .mult ∧
      (O.isStr left && O.intAbove MAX_STRING_MULTIPLY right ||
        O.isStr right && O.intAbove MAX_STRING_MULTIPLY left) = true then
    some "string repetition too large"
  else none

/-- `except Exception` around an operator or a function. -/
def converted (what : String) : Except (Failure Exc) Obj → Except (Failure Exc) Obj
  | .error (.other e) => .error (.formula (what ++ " failed: " ++ O.text e))
  | result => result

/-- The loop of `_visit_BoolOp` over the values of all operands. -/
def choose (op : BoolOp) : Obj → List Obj → Except (Failure Exc) Obj
  | result, [] => .ok result
  | _, v :: vs => do
    if (← O.truth v) = (op = .or) then return v else choose op v vs

/-- What a `BoolOp` starts with. -/
def start (op : BoolOp) : Obj := O.literal (.bool (op = .and))

/-- `_visit_Compare` after its first operand. -/
def compareChain (visit : Node → Except (Failure Exc) Obj) :
    Obj → List (Option CmpOp × Node) → Except (Failure Exc) Obj
  | _, [] => .ok (O.literal (.bool true))
  | _, (none, _) :: _ => .error (.formula "disallowed comparison")
  | left, (some op, comparator) :: rest => do
    let right ← visit comparator
    let result ← O.compare op left right
    if ← O.truth result then compareChain visit right rest
    else return O.literal (.bool false)

variable (functions : Functions Obj Exc) (context : String → Option Obj)

/-- `_Evaluator.visit`, of which at most so many may be open. -/
def visit : ℕ → Node → Except (Failure Exc) Obj
  | 0, _ => .error (.other O.recursionError)
  | _ + 1, .constant .other => .error (.formula "disallowed constant")
  | _ + 1, .constant value => .ok (O.literal value)
  | _ + 1, .name id =>
    match context id with
    | some v => .ok v
    | none => .error (.formula ("unknown name: " ++ id))
  | _ + 1, .binOp _ (.other kind) _ => .error (.formula ("disallowed operator: " ++ kind))
  | n + 1, .binOp left (.allowed op) right => do
    let left ← visit n left
    let right ← visit n right
    match refusal O op left right with
    | some text => .error (.formula text)
    | none => converted O (lower (opName op)) (O.binary op left right)
  | _ + 1, .unaryOp none _ => .error (.formula "disallowed unary operator")
  | n + 1, .unaryOp (some op) operand =>
    converted O "unary operator" (visit n operand >>= O.unary op)
  | n + 1, .boolOp op values => do choose O op (start O op) (← values.mapM (visit n))
  | n + 1, .compare left rest => do compareChain O (visit n) (← visit n left) rest
  | n + 1, .ifExp test body orelse => do
    if ← O.truth (← visit n test) then visit n body else visit n orelse
  | n + 1, .call (.name id) args keywords =>
    match functions id with
    | none => .error (.formula ("unknown function: " ++ id))
    | some func =>
      if keywords then .error (.formula "keyword arguments are not allowed in formulas")
      else do converted O id (func (← args.mapM (visit n)))
  | _ + 1, .call _ _ _ => .error (.formula "only direct function calls are allowed")
  | n + 1, .list elts => do return O.list (← elts.mapM (visit n))
  | n + 1, .tuple elts => do return O.tuple (← elts.mapM (visit n))
  | _ + 1, .other kind => .error (.formula ("disallowed expression: " ++ kind))

def evaluateFormula (parse : String → Except String Node) (limit : ℕ) (formula : String) :
    Except (Failure Exc) Obj :=
  match parse formula with
  | .error exc => .error (.formula ("invalid formula syntax: " ++ exc))
  | .ok body => visit O functions context limit body

def scope (id : String) : Option Obj :=
  (context id).or <|
    if id = "True" then some (O.literal (.bool true))
    else if id = "False" then some (O.literal (.bool false))
    else if id = "None" then some (O.literal .none)
    else none

/-- What a scorecard gets: a value, or `{"error": text}`. -/
inductive Answer (Obj : Type)
  | value (v : Obj)
  | error (text : String)

/-- `_evaluate_formula` over a table of functions: an answer, or an exception that leaves it. -/
def formulaAnswer (parse : String → Except String Node) (limit : ℕ) (formula : String) :
    Except Exc (Answer Obj) :=
  match evaluateFormula O functions (scope O context) parse limit formula with
  | .ok v => .ok (.value v)
  | .error (.formula text) => .ok (.error text)
  | .error (.other e) => .error e

end Evaluator

/-! ### What an expression is worth -/

section Meaning
variable (O : Objects Obj Exc) (functions : Functions Obj Exc) (context : String → Option Obj)

mutual

/-- An expression that nests at most so deep has a value. -/
inductive Evaluates : ℕ → Node → Obj → Prop
  | constant {n : ℕ} {value : Literal} (h : value ≠ .other) :
      Evaluates (n + 1) (.constant value) (O.literal value)
  | name {n : ℕ} {id : String} {v : Obj} (h : context id = some v) : Evaluates (n + 1) (.name id) v
  | binOp {n : ℕ} {left right : Node} {op : BinOp} {a b v : Obj} (hleft : Evaluates n left a)
      (hright : Evaluates n right b) (hrefusal : refusal O op a b = none)
      (h : O.binary op a b = .ok v) : Evaluates (n + 1) (.binOp left (.allowed op) right) v
  | unaryOp {n : ℕ} {op : UnaryOp} {operand : Node} {a v : Obj} (ha : Evaluates n operand a)
      (h : O.unary op a = .ok v) : Evaluates (n + 1) (.unaryOp (some op) operand) v
  | boolOp {n : ℕ} {op : BoolOp} {values : List Node} {vs : List Obj} {v : Obj}
      (hvs : EvaluatesAll n values vs) (h : choose O op (start O op) vs = .ok v) :
      Evaluates (n + 1) (.boolOp op values) v
  | compare {n : ℕ} {left : Node} {rest : List (Option CmpOp × Node)} {a v : Obj}
      (hleft : Evaluates n left a) (h : EvaluatesChain n a rest v) :
      Evaluates (n + 1) (.compare left rest) v
  | ifTrue {n : ℕ} {test body orelse : Node} {t v : Obj} (htest : Evaluates n test t)
      (htruth : O.truth t = .ok true) (h : Evaluates n body v) :
      Evaluates (n + 1) (.ifExp test body orelse) v
  | ifFalse {n : ℕ} {test body orelse : Node} {t v : Obj} (htest : Evaluates n test t)
      (htruth : O.truth t = .ok false) (h : Evaluates n orelse v) :
      Evaluates (n + 1) (.ifExp test body orelse) v
  | call {n : ℕ} {id : String} {func : List Obj → Except (Failure Exc) Obj} {args : List Node}
      {vs : List Obj} {v : Obj} (hfunc : functions id = some func) (hvs : EvaluatesAll n args vs)
      (h : func vs = .ok v) : Evaluates (n + 1) (.call (.name id) args false) v
  | list {n : ℕ} {elts : List Node} {vs : List Obj} (hvs : EvaluatesAll n elts vs) :
      Evaluates (n + 1) (.list elts) (O.list vs)
  | tuple {n : ℕ} {elts : List Node} {vs : List Obj} (hvs : EvaluatesAll n elts vs) :
      Evaluates (n + 1) (.tuple elts) (O.tuple vs)

inductive EvaluatesAll : ℕ → List Node → List Obj → Prop
  | nil {n : ℕ} : EvaluatesAll n [] []
  | cons {n : ℕ} {node : Node} {nodes : List Node} {v : Obj} {vs : List Obj}
      (hv : Evaluates n node v) (h : EvaluatesAll n nodes vs) :
      EvaluatesAll n (node :: nodes) (v :: vs)

/-- A chain of comparisons, after the value on its left. -/
inductive EvaluatesChain : ℕ → Obj → List (Option CmpOp × Node) → Obj → Prop
  | nil {n : ℕ} {a : Obj} : EvaluatesChain n a [] (O.literal (.bool true))
  | stop {n : ℕ} {a b r : Obj} {op : CmpOp} {comparator : Node}
      {rest : List (Option CmpOp × Node)} (hb : Evaluates n comparator b)
      (hcompare : O.compare op a b = .ok r) (htruth : O.truth r = .ok false) :
      EvaluatesChain n a ((some op, comparator) :: rest) (O.literal (.bool false))
  | next {n : ℕ} {a b r v : Obj} {op : CmpOp} {comparator : Node}
      {rest : List (Option CmpOp × Node)} (hb : Evaluates n comparator b)
      (hcompare : O.compare op a b = .ok r) (htruth : O.truth r = .ok true)
      (h : EvaluatesChain n b rest v) : EvaluatesChain n a ((some op, comparator) :: rest) v

end

/-! ### What an evaluation comes to -/

/-- What may raise with nothing around it that turns the exception into a formula error. -/
inductive Point (Obj : Type)
  | compares (op : CmpOp) (left right : Obj)
  | tests (v : Obj)
  | endOfStack

def Point.Raises (e : Exc) : Point Obj → Prop
  | .compares op left right => O.compare op left right = .error (.other e)
  | .tests v => O.truth v = .error (.other e)
  | .endOfStack => e = O.recursionError

/-- The values that an `and` or an `or` tests: up to the first that decides it. -/
inductive Tested (op : BoolOp) (v : Obj) : List Obj → Prop
  | head {vs : List Obj} : Tested op v (v :: vs)
  | tail {w : Obj} {vs : List Obj} (hw : O.truth w = .ok (op = .and)) (h : Tested op v vs) :
      Tested op v (w :: vs)

mutual

/-- The evaluation of an expression comes to a point outside every unary operator. -/
inductive Comes : ℕ → Node → Point Obj → Prop
  | endOfStack {node : Node} : Comes 0 node .endOfStack
  | left {n : ℕ} {left right : Node} {op : BinOp} {p : Point Obj} (h : Comes n left p) :
      Comes (n + 1) (.binOp left (.allowed op) right) p
  | right {n : ℕ} {left right : Node} {op : BinOp} {a : Obj} {p : Point Obj}
      (hleft : Evaluates O functions context n left a) (h : Comes n right p) :
      Comes (n + 1) (.binOp left (.allowed op) right) p
  | operand {n : ℕ} {op : BoolOp} {values : List Node} {p : Point Obj} (h : ComesAny n values p) :
      Comes (n + 1) (.boolOp op values) p
  | tested {n : ℕ} {op : BoolOp} {values : List Node} {vs : List Obj} {v : Obj}
      (hvs : EvaluatesAll O functions context n values vs) (h : Tested O op v vs) :
      Comes (n + 1) (.boolOp op values) (.tests v)
  | first {n : ℕ} {left : Node} {rest : List (Option CmpOp × Node)} {p : Point Obj}
      (h : Comes n left p) : Comes (n + 1) (.compare left rest) p
  | chain {n : ℕ} {left : Node} {rest : List (Option CmpOp × Node)} {a : Obj} {p : Point Obj}
      (hleft : Evaluates O functions context n left a) (h : ComesAlong n a rest p) :
      Comes (n + 1) (.compare left rest) p
  | test {n : ℕ} {test body orelse : Node} {p : Point Obj} (h : Comes n test p) :
      Comes (n + 1) (.ifExp test body orelse) p
  | decides {n : ℕ} {test body orelse : Node} {t : Obj}
      (htest : Evaluates O functions context n test t) :
      Comes (n + 1) (.ifExp test body orelse) (.tests t)
  | body {n : ℕ} {test body orelse : Node} {t : Obj} {p : Point Obj}
      (htest : Evaluates O functions context n test t) (htruth : O.truth t = .ok true)
      (h : Comes n body p) : Comes (n + 1) (.ifExp test body orelse) p
  | orelse {n : ℕ} {test body orelse : Node} {t : Obj} {p : Point Obj}
      (htest : Evaluates O functions context n test t) (htruth : O.truth t = .ok false)
      (h : Comes n orelse p) : Comes (n + 1) (.ifExp test body orelse) p
  | arg {n : ℕ} {id : String} {func : List Obj → Except (Failure Exc) Obj} {args : List Node}
      {p : Point Obj} (hfunc : functions id = some func) (h : ComesAny n args p) :
      Comes (n + 1) (.call (.name id) args false) p
  | listItem {n : ℕ} {elts : List Node} {p : Point Obj} (h : ComesAny n elts p) :
      Comes (n + 1) (.list elts) p
  | tupleItem {n : ℕ} {elts : List Node} {p : Point Obj} (h : ComesAny n elts p) :
      Comes (n + 1) (.tuple elts) p

inductive ComesAny : ℕ → List Node → Point Obj → Prop
  | head {n : ℕ} {node : Node} {nodes : List Node} {p : Point Obj} (h : Comes n node p) :
      ComesAny n (node :: nodes) p
  | tail {n : ℕ} {node : Node} {nodes : List Node} {v : Obj} {p : Point Obj}
      (hv : Evaluates O functions context n node v) (h : ComesAny n nodes p) :
      ComesAny n (node :: nodes) p

/-- The same of a chain of comparisons, after the value on its left. -/
inductive ComesAlong : ℕ → Obj → List (Option CmpOp × Node) → Point Obj → Prop
  | comparator {n : ℕ} {a : Obj} {op : CmpOp} {comparator : Node}
      {rest : List (Option CmpOp × Node)} {p : Point Obj} (h : Comes n comparator p) :
      ComesAlong n a ((some op, comparator) :: rest) p
  | compares {n : ℕ} {a b : Obj} {op : CmpOp} {comparator : Node}
      {rest : List (Option CmpOp × Node)} (hb : Evaluates O functions context n comparator b) :
      ComesAlong n a ((some op, comparator) :: rest) (.compares op a b)
  | tests {n : ℕ} {a b r : Obj} {op : CmpOp} {comparator : Node}
      {rest : List (Option CmpOp × Node)} (hb : Evaluates O functions context n comparator b)
      (hcompare : O.compare op a b = .ok r) :
      ComesAlong n a ((some op, comparator) :: rest) (.tests r)
  | next {n : ℕ} {a b r : Obj} {op : CmpOp} {comparator : Node}
      {rest : List (Option CmpOp × Node)} {p : Point Obj}
      (hb : Evaluates O functions context n comparator b)
      (hcompare : O.compare op a b = .ok r) (htruth : O.truth r = .ok true)
      (h : ComesAlong n b rest p) : ComesAlong n a ((some op, comparator) :: rest) p

end

end Meaning

/-! ### The evaluator gives what an expression is worth -/

section Values
variable {O : Objects Obj Exc} {functions : Functions Obj Exc} {context : String → Option Obj}

variable {v : Obj} {what : String} {x : Except (Failure Exc) Obj}

theorem converted_eq_ok : converted O what x = .ok v ↔ x = .ok v := by
  cases x with
  | ok w => exact Iff.rfl
  | error failure =>
    cases failure with
    | formula text => exact Iff.rfl
    | other e => exact iff_of_false (fun h => by cases h) (fun h => by cases h)

theorem converted_ne_other {e : Exc} : converted O what x ≠ .error (.other e) := by
  intro h
  cases x with
  | ok w => cases h
  | error failure =>
    cases failure with
    | formula text => cases h
    | other e => cases h

variable {n : ℕ}
  (hn : ∀ node v, visit O functions context n node = .ok v ↔ Evaluates O functions context n node v)

include hn

theorem visitAll_iff {nodes : List Node} {vs : List Obj} :
    nodes.mapM (visit O functions context n) = .ok vs ↔
      EvaluatesAll O functions context n nodes vs := by
  induction nodes generalizing vs with
  | nil =>
    rw [List.mapM_nil]
    constructor
    · intro h
      cases h
      exact .nil
    · intro h
      cases h
      rfl
  | cons node nodes ih =>
    rw [List.mapM_cons, bind_eq_ok]
    constructor
    · rintro ⟨v, hv, h⟩
      obtain ⟨vs', hvs, hret⟩ := bind_eq_ok.1 h
      cases hret
      exact .cons ((hn _ _).1 hv) (ih.1 hvs)
    · intro h
      cases h with
      | cons hv h => exact ⟨_, (hn _ _).2 hv, bind_eq_ok.2 ⟨_, ih.2 h, rfl⟩⟩

theorem compareChain_iff {a : Obj} {rest : List (Option CmpOp × Node)} :
    compareChain O (visit O functions context n) a rest = .ok v ↔
      EvaluatesChain O functions context n a rest v := by
  induction rest generalizing a with
  | nil =>
    constructor
    · intro h
      cases h
      exact .nil
    · intro h
      cases h
      rfl
  | cons link rest ih =>
    obtain ⟨op, comparator⟩ := link
    cases op with
    | none => exact iff_of_false (fun h => by cases h) (fun h => by cases h)
    | some op =>
      rw [compareChain, bind_eq_ok]
      constructor
      · rintro ⟨b, hb, h⟩
        obtain ⟨r, hcompare, h⟩ := bind_eq_ok.1 h
        obtain ⟨t, htruth, h⟩ := bind_eq_ok.1 h
        cases t with
        | true => exact .next ((hn _ _).1 hb) hcompare htruth (ih.1 h)
        | false =>
          cases h
          exact .stop ((hn _ _).1 hb) hcompare htruth
      · intro h
        cases h with
        | stop hb hcompare htruth =>
          exact ⟨_, (hn _ _).2 hb, bind_eq_ok.2 ⟨_, hcompare, bind_eq_ok.2 ⟨_, htruth, rfl⟩⟩⟩
        | next hb hcompare htruth h => grind [bind_eq_ok]

theorem visit_step {node : Node} : visit O functions context (n + 1) node = .ok v ↔
    Evaluates O functions context (n + 1) node v := by
  cases node with
  | constant value =>
    cases value with
    | other => exact iff_of_false (fun h => by cases h) (fun h => by cases h; contradiction)
    | _ =>
      constructor
      · intro h
        cases h
        exact .constant (fun h => by cases h)
      · intro h
        cases h
        rfl
  | name id =>
    rw [visit]
    constructor
    · intro h
      split at h
      · cases h
        exact .name ‹_›
      · cases h
    · intro h
      cases h with
      | name h => rw [h]
  | binOp left op right =>
    cases op with
    | other kind => exact iff_of_false (fun h => by cases h) (fun h => by cases h)
    | allowed op =>
      rw [visit, bind_eq_ok]
      constructor
      · rintro ⟨a, ha, h⟩
        obtain ⟨b, hb, h⟩ := bind_eq_ok.1 h
        split at h
        · cases h
        · exact .binOp ((hn _ _).1 ha) ((hn _ _).1 hb) ‹_› (converted_eq_ok.1 h)
      · intro h
        cases h with
        | binOp hleft hright hrefusal h => grind [bind_eq_ok, converted_eq_ok]
  | unaryOp op operand =>
    cases op with
    | none => exact iff_of_false (fun h => by cases h) (fun h => by cases h)
    | some op =>
      rw [visit, converted_eq_ok, bind_eq_ok]
      constructor
      · rintro ⟨a, ha, h⟩
        exact .unaryOp ((hn _ _).1 ha) h
      · intro h
        cases h with
        | unaryOp ha h => exact ⟨_, (hn _ _).2 ha, h⟩
  | boolOp op values =>
    rw [visit, bind_eq_ok]
    constructor
    · rintro ⟨vs, hvs, h⟩
      exact .boolOp ((visitAll_iff hn).1 hvs) h
    · intro h
      cases h with
      | boolOp hvs h => exact ⟨_, (visitAll_iff hn).2 hvs, h⟩
  | compare left rest =>
    rw [visit, bind_eq_ok]
    constructor
    · rintro ⟨a, ha, h⟩
      exact .compare ((hn _ _).1 ha) ((compareChain_iff hn).1 h)
    · intro h
      cases h with
      | compare hleft h => exact ⟨_, (hn _ _).2 hleft, (compareChain_iff hn).2 h⟩
  | ifExp test body orelse =>
    rw [visit, bind_eq_ok]
    constructor
    · rintro ⟨t, ht, h⟩
      obtain ⟨b, hb, h⟩ := bind_eq_ok.1 h
      cases b with
      | true => exact .ifTrue ((hn _ _).1 ht) hb ((hn _ _).1 h)
      | false => exact .ifFalse ((hn _ _).1 ht) hb ((hn _ _).1 h)
    · intro h
      cases h with
      | ifTrue htest htruth h => grind [bind_eq_ok]
      | ifFalse htest htruth h => grind [bind_eq_ok]
  | call func args keywords =>
    cases func with
    | name id =>
      rw [visit]
      constructor
      · intro h
        split at h
        · cases h
        · split at h
          · cases h
          · obtain ⟨vs, hvs, h⟩ := bind_eq_ok.1 h
            have hkeywords : keywords = false := by simpa using ‹¬ keywords = true›
            rw [hkeywords]
            exact .call ‹_› ((visitAll_iff hn).1 hvs) (converted_eq_ok.1 h)
      · intro h
        cases h with
        | call hfunc hvs h => grind [bind_eq_ok, visitAll_iff, converted_eq_ok]
    | _ => exact iff_of_false (fun h => by cases h) (fun h => by cases h)
  | list elts =>
    rw [visit, bind_eq_ok]
    constructor
    · rintro ⟨vs, hvs, h⟩
      cases h
      exact .list ((visitAll_iff hn).1 hvs)
    · intro h
      cases h with
      | list hvs => exact ⟨_, (visitAll_iff hn).2 hvs, rfl⟩
  | tuple elts =>
    rw [visit, bind_eq_ok]
    constructor
    · rintro ⟨vs, hvs, h⟩
      cases h
      exact .tuple ((visitAll_iff hn).1 hvs)
    · intro h
      cases h with
      | tuple hvs => exact ⟨_, (visitAll_iff hn).2 hvs, rfl⟩
  | other kind => exact iff_of_false (fun h => by cases h) (fun h => by cases h)

omit hn in
theorem visit_iff {n : ℕ} : ∀ node v, visit O functions context n node = .ok v ↔
    Evaluates O functions context n node v := by
  induction n with
  | zero => exact fun node v => iff_of_false (fun h => by cases h) (fun h => by cases h)
  | succ n ih => exact fun node v => visit_step ih

end Values

/-! ### What leaves the evaluator -/

section Escapes
variable {O : Objects Obj Exc} {functions : Functions Obj Exc} {context : String → Option Obj}

theorem choose_eq_other {op : BoolOp} {result : Obj} {vs : List Obj} {e : Exc} :
    choose O op result vs = .error (.other e) ↔
      ∃ v, Tested O op v vs ∧ O.truth v = .error (.other e) := by
  induction vs generalizing result with
  | nil =>
    refine iff_of_false (fun h => by cases h) ?_
    rintro ⟨v, h, -⟩
    cases h
  | cons w vs ih =>
    rw [choose, bind_eq_error]
    constructor
    · rintro (h | ⟨t, ht, h⟩)
      · exact ⟨w, .head, h⟩
      · split at h
        · cases h
        · obtain ⟨v, hv, hraises⟩ := ih.1 h
          refine ⟨v, .tail ?_ hv, hraises⟩
          rw [ht]
          cases op with
          | and => simp_all
          | or => simp_all
    · rintro ⟨v, h, hraises⟩
      cases h with
      | head => exact .inl hraises
      | tail hw h =>
        refine .inr ⟨_, hw, ?_⟩
        cases op with
        | and => exact ih.2 ⟨v, h, hraises⟩
        | or => exact ih.2 ⟨v, h, hraises⟩

variable {n : ℕ} {e : Exc}
  (hn : ∀ node, visit O functions context n node = .error (.other e) ↔
    ∃ p, Comes O functions context n node p ∧ p.Raises O e)

include hn

theorem visitAll_escapes_iff {nodes : List Node} :
    nodes.mapM (visit O functions context n) = .error (.other e) ↔
      ∃ p, ComesAny O functions context n nodes p ∧ p.Raises O e := by
  induction nodes with
  | nil =>
    refine iff_of_false (fun h => by cases h) ?_
    rintro ⟨p, h, -⟩
    cases h
  | cons node nodes ih =>
    rw [List.mapM_cons, bind_eq_error]
    constructor
    · rintro (h | ⟨v, hv, h⟩)
      · obtain ⟨p, hp, hraises⟩ := (hn _).1 h
        exact ⟨p, .head hp, hraises⟩
      · rcases bind_eq_error.1 h with h | ⟨vs, -, h⟩
        · obtain ⟨p, hp, hraises⟩ := ih.1 h
          exact ⟨p, .tail ((visit_iff _ _).1 hv) hp, hraises⟩
        · cases h
    · rintro ⟨p, h, hraises⟩
      cases h with
      | head h => exact .inl ((hn _).2 ⟨p, h, hraises⟩)
      | tail hv h =>
        exact .inr ⟨_, (visit_iff _ _).2 hv, bind_eq_error.2 (.inl (ih.2 ⟨p, h, hraises⟩))⟩

theorem compareChain_escapes_iff {a : Obj} {rest : List (Option CmpOp × Node)} :
    compareChain O (visit O functions context n) a rest = .error (.other e) ↔
      ∃ p, ComesAlong O functions context n a rest p ∧ p.Raises O e := by
  induction rest generalizing a with
  | nil =>
    refine iff_of_false (fun h => by cases h) ?_
    rintro ⟨p, h, -⟩
    cases h
  | cons link rest ih =>
    obtain ⟨op, comparator⟩ := link
    cases op with
    | none =>
      refine iff_of_false (fun h => by cases h) ?_
      rintro ⟨p, h, -⟩
      cases h
    | some op =>
      rw [compareChain, bind_eq_error]
      constructor
      · rintro (h | ⟨b, hb, h⟩)
        · obtain ⟨p, hp, hraises⟩ := (hn _).1 h
          exact ⟨p, .comparator hp, hraises⟩
        · have hvalue := (visit_iff _ _).1 hb
          rcases bind_eq_error.1 h with h | ⟨r, hcompare, h⟩
          · exact ⟨_, .compares hvalue, h⟩
          · rcases bind_eq_error.1 h with h | ⟨t, htruth, h⟩
            · exact ⟨_, .tests hvalue hcompare, h⟩
            · cases t with
              | true =>
                obtain ⟨p, hp, hraises⟩ := ih.1 h
                exact ⟨p, .next hvalue hcompare htruth hp, hraises⟩
              | false => cases h
      · rintro ⟨p, h, hraises⟩
        cases h with
        | comparator h => exact .inl ((hn _).2 ⟨p, h, hraises⟩)
        | compares hb => exact .inr ⟨_, (visit_iff _ _).2 hb, bind_eq_error.2 (.inl hraises)⟩
        | tests hb hcompare =>
          exact .inr ⟨_, (visit_iff _ _).2 hb,
            bind_eq_error.2 (.inr ⟨_, hcompare, bind_eq_error.2 (.inl hraises)⟩)⟩
        | next hb hcompare htruth h => grind [visit_iff, bind_eq_error]

theorem visit_escapes_step {node : Node} :
    visit O functions context (n + 1) node = .error (.other e) ↔
      ∃ p, Comes O functions context (n + 1) node p ∧ p.Raises O e := by
  cases node with
  | constant value =>
    refine iff_of_false (fun h => ?_) ?_
    · cases value <;> cases h
    · rintro ⟨p, h, -⟩
      cases h
  | name id =>
    rw [visit]
    refine iff_of_false (fun h => ?_) ?_
    · split at h <;> cases h
    · rintro ⟨p, h, -⟩
      cases h
  | binOp left op right =>
    cases op with
    | other kind =>
      refine iff_of_false (fun h => by cases h) ?_
      rintro ⟨p, h, -⟩
      cases h
    | allowed op =>
      rw [visit, bind_eq_error]
      constructor
      · rintro (h | ⟨a, ha, h⟩)
        · obtain ⟨p, hp, hraises⟩ := (hn _).1 h
          exact ⟨p, .left hp, hraises⟩
        · rcases bind_eq_error.1 h with h | ⟨b, -, h⟩
          · obtain ⟨p, hp, hraises⟩ := (hn _).1 h
            exact ⟨p, .right ((visit_iff _ _).1 ha) hp, hraises⟩
          grind [converted_ne_other]
      · rintro ⟨p, h, hraises⟩
        cases h with
        | left h => exact .inl ((hn _).2 ⟨p, h, hraises⟩)
        | right hleft h =>
          exact .inr ⟨_, (visit_iff _ _).2 hleft, bind_eq_error.2 (.inl ((hn _).2 ⟨p, h, hraises⟩))⟩
  | unaryOp op operand =>
    -- whatever is raised inside is a formula error outside
    have hno : ¬ ∃ p, Comes O functions context (n + 1) (.unaryOp op operand) p ∧ p.Raises O e := by
      rintro ⟨p, h, -⟩
      cases h
    cases op with
    | none => exact iff_of_false (fun h => by cases h) hno
    | some op => exact iff_of_false converted_ne_other hno
  | boolOp op values =>
    rw [visit, bind_eq_error]
    constructor
    · rintro (h | ⟨vs, hvs, h⟩)
      · obtain ⟨p, hp, hraises⟩ := (visitAll_escapes_iff hn).1 h
        exact ⟨p, .operand hp, hraises⟩
      · obtain ⟨v, hv, hraises⟩ := choose_eq_other.1 h
        exact ⟨_, .tested ((visitAll_iff visit_iff).1 hvs) hv, hraises⟩
    · rintro ⟨p, h, hraises⟩
      cases h with
      | operand h => exact .inl ((visitAll_escapes_iff hn).2 ⟨p, h, hraises⟩)
      | tested hvs h =>
        exact .inr ⟨_, (visitAll_iff visit_iff).2 hvs, choose_eq_other.2 ⟨_, h, hraises⟩⟩
  | compare left rest =>
    rw [visit, bind_eq_error]
    constructor
    · rintro (h | ⟨a, ha, h⟩)
      · obtain ⟨p, hp, hraises⟩ := (hn _).1 h
        exact ⟨p, .first hp, hraises⟩
      · obtain ⟨p, hp, hraises⟩ := (compareChain_escapes_iff hn).1 h
        exact ⟨p, .chain ((visit_iff _ _).1 ha) hp, hraises⟩
    · rintro ⟨p, h, hraises⟩
      cases h with
      | first h => exact .inl ((hn _).2 ⟨p, h, hraises⟩)
      | chain hleft h =>
        exact .inr ⟨_, (visit_iff _ _).2 hleft, (compareChain_escapes_iff hn).2 ⟨p, h, hraises⟩⟩
  | ifExp test body orelse =>
    rw [visit, bind_eq_error]
    constructor
    · rintro (h | ⟨t, ht, h⟩)
      · obtain ⟨p, hp, hraises⟩ := (hn _).1 h
        exact ⟨p, .test hp, hraises⟩
      · have htest := (visit_iff _ _).1 ht
        rcases bind_eq_error.1 h with h | ⟨b, hb, h⟩
        · exact ⟨_, .decides htest, h⟩
        · cases b with
          | true =>
            obtain ⟨p, hp, hraises⟩ := (hn _).1 h
            exact ⟨p, .body htest hb hp, hraises⟩
          | false =>
            obtain ⟨p, hp, hraises⟩ := (hn _).1 h
            exact ⟨p, .orelse htest hb hp, hraises⟩
    · rintro ⟨p, h, hraises⟩
      cases h with
      | test h => exact .inl ((hn _).2 ⟨p, h, hraises⟩)
      | decides htest => exact .inr ⟨_, (visit_iff _ _).2 htest, bind_eq_error.2 (.inl hraises)⟩
      | body htest htruth h => grind [visit_iff, bind_eq_error]
      | orelse htest htruth h => grind [visit_iff, bind_eq_error]
  | call func args keywords =>
    cases func with
    | name id =>
      rw [visit]
      constructor
      · intro h
        split at h
        · cases h
        · split at h
          · cases h
          · have hkeywords : keywords = false := by simpa using ‹¬ keywords = true›
            rcases bind_eq_error.1 h with h | ⟨vs, -, h⟩
            · obtain ⟨p, hp, hraises⟩ := (visitAll_escapes_iff hn).1 h
              rw [hkeywords]
              exact ⟨p, .arg ‹_› hp, hraises⟩
            · exact absurd h converted_ne_other
      · rintro ⟨p, h, hraises⟩
        cases h with
        | arg hfunc h => grind [bind_eq_error, visitAll_escapes_iff]
    | _ =>
      refine iff_of_false (fun h => by cases h) ?_
      rintro ⟨p, h, -⟩
      cases h
  | list elts =>
    rw [visit, bind_eq_error]
    constructor
    · rintro (h | ⟨vs, -, h⟩)
      · obtain ⟨p, hp, hraises⟩ := (visitAll_escapes_iff hn).1 h
        exact ⟨p, .listItem hp, hraises⟩
      · cases h
    · rintro ⟨p, h, hraises⟩
      cases h with
      | listItem h => exact .inl ((visitAll_escapes_iff hn).2 ⟨p, h, hraises⟩)
  | tuple elts =>
    rw [visit, bind_eq_error]
    constructor
    · rintro (h | ⟨vs, -, h⟩)
      · obtain ⟨p, hp, hraises⟩ := (visitAll_escapes_iff hn).1 h
        exact ⟨p, .tupleItem hp, hraises⟩
      · cases h
    · rintro ⟨p, h, hraises⟩
      cases h with
      | tupleItem h => exact .inl ((visitAll_escapes_iff hn).2 ⟨p, h, hraises⟩)
  | other kind =>
    refine iff_of_false (fun h => by cases h) ?_
    rintro ⟨p, h, -⟩
    cases h

omit hn in
theorem visit_escapes_iff {n : ℕ} : ∀ node,
    visit O functions context n node = .error (.other e) ↔
      ∃ p, Comes O functions context n node p ∧ p.Raises O e := by
  induction n with
  | zero =>
    intro node
    constructor
    · intro h
      cases h
      exact ⟨_, .endOfStack, rfl⟩
    · rintro ⟨p, h, hraises⟩
      cases h
      rw [show e = O.recursionError from hraises]
      rfl
  | succ n ih => exact fun node => visit_escapes_step ih

end Escapes

/-- There is an answer: a value, or the text of an error. -/
def Returns (outcome : Except Exc (Answer Obj)) : Prop := ∃ answer, outcome = .ok answer

/-- **A formula answers.**  A formula that parses gives a value or the text of an error exactly if
    none of the comparisons and tests that its evaluation comes to outside the unary operators
    raises, and it does not come to the end of the stack. -/
theorem formula_returns_iff (O : Objects Obj Exc) (functions : Functions Obj Exc)
    (context : String → Option Obj) {parse : String → Except String Node} {formula : String}
    {body : Node} (hparse : parse formula = .ok body) (limit : ℕ) :
    Returns (formulaAnswer O functions context parse limit formula) ↔
      ∀ p, Comes O functions (scope O context) limit body p → ∀ e, ¬ p.Raises O e := by
  have heval : evaluateFormula O functions (scope O context) parse limit formula =
      visit O functions (scope O context) limit body := by
    rw [evaluateFormula, hparse]
  rw [formulaAnswer, heval]
  constructor
  · rintro ⟨answer, h⟩ p hp e hraises
    rw [(visit_escapes_iff body).2 ⟨p, hp, hraises⟩] at h
    cases h
  · intro h
    cases hvisit : visit O functions (scope O context) limit body with
    | ok v => exact ⟨_, rfl⟩
    | error failure =>
      cases failure with
      | formula text => exact ⟨_, rfl⟩
      | other e => grind [visit_escapes_iff]

/-! ### JSON values -/

section Json
variable (py : Formula.Python)

/-- `TypeError` and what else an operator on JSON values raises. -/
def raised {α : Type} : Option α → Except (Failure String) α
  | some v => .ok v
  | none => .error (.other "TypeError")

def jsonObjects : Objects Value String where
  literal
    | .none => .null
    | .bool b => .bool b
    | .int n => .int n
    | .float q => .float q
    | .inf => .inf false
    | .str s => .str s
    | .other => .null
  list := .list
  tuple := .list
  binary op a b := raised (Formula.pyBinOp py op a b)
  unary op a := raised (Formula.pyUnaryOp op a)
  compare op a b := (raised (Formula.pyCompareOp op a b)).map .bool
  truth v := .ok v.truthy
  numberAbove bound
    | .inf neg => !neg
    | v => v.numeric.any fun q => decide ((bound : ℚ) < q)
  intAbove bound v := (VarCode.wholeOf v).any fun n => decide (bound < n)
  isStr
    | .str _ => true
    | _ => false
  text := id
  recursionError := "RecursionError"

/-- A parser that knows `score > 600`. -/
def parseScore (formula : String) : Except String Node :=
  if formula = "score > 600" then
    .ok (.compare (.name "score") [(some .gt, .constant (.int 600))])
  else .error "invalid syntax"

end Json

def asciiPython : Formula.Python := ⟨fun _ => false, fun _ => false, fun _ _ => 0, fun _ _ => none⟩

def scored (score : Value) (id : String) : Option Value := if id = "score" then some score else none

/-- What `_evaluate_formula` makes of `score > 600`. -/
def scoreAnswer (score : Value) : Except String (Answer Value) :=
  formulaAnswer (jsonObjects asciiPython) (fun _ => none) (scored score) parseScore 100
    "score > 600"

/-- A score that is a number. -/
theorem score_answers : Returns (scoreAnswer (.int 700)) := by
  have hparse : parseScore "score > 600" = .ok _ := rfl
  refine (formula_returns_iff (jsonObjects asciiPython) (fun _ => none) (scored (.int 700)) hparse
    100).2 ?_
  intro p hp e hraises
  cases hp with
  | first h => cases h
  | chain hleft h =>
    cases hleft with
    | name hname =>
      cases hname
      cases h with
      | comparator h => cases h
      | compares hb =>
        cases hb
        cases hraises
      | tests => cases hraises
      | next _ _ _ h => cases h

/-- A score that is missing: `None` is compared with a number. -/
theorem comparison_escapes : ¬ Returns (scoreAnswer .null) := by
  rintro ⟨answer, h⟩
  cases h

end RuleMind.FormulaErrors
