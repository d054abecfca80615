/-
  Formulas on the device: `evaluateFormula` of `sdk-flutter/lib/src/safe_formula.dart`, against
  `evaluate_formula` of the server.

  Integers are exact here, as doubles are; a number is not told from its negative at zero.
-/
import RuleMind.BrowserFormula

namespace RuleMind.Formula

open Browser (spanDigits wordStart wordChar)
open Text (F64 digitsValue readDecimal)

/-! ### Values -/

namespace Dart

inductive Num
  | int (n : ℤ)
  | double (x : F64)

end Dart

inductive DartValue
  | null
  | bool (b : Bool)
  | num (n : Dart.Num)
  | str (s : String)
  | list (vs : List DartValue)
  | map (kvs : List (String × DartValue))

namespace Dart

mutual

def ofJson : Value → DartValue
  | .null => .null
  | .bool b => .bool b
  | .int n => .num (.int n)
  | .float q => .num (.double (.finite q))
  | .inf neg => .num (.double (.infinite neg))
  | .str s => .str s
  | .list vs => .list (ofJsonItems vs)
  | .dict kvs => .map (ofJsonFields kvs)

def ofJsonItems : List Value → List DartValue
  | [] => []
  | v :: vs => ofJson v :: ofJsonItems vs

def ofJsonFields : List (String × Value) → List (String × DartValue)
  | [] => []
  | (k, v) :: kvs => (k, ofJson v) :: ofJsonFields kvs

end

end Dart

structure Dart where
  /-- a positive number to a power that is no whole number -/
  powerOf : ℚ → ℚ → ℚ
  /-- two maps are one object -/
  same : List (String × DartValue) → List (String × DartValue) → Bool

namespace Dart

/-! ### Operators -/

def MAX_SOURCE_LENGTH : ℕ := 10000

def MAX_DEPTH : ℕ := 64

def MAX_POW_EXPONENT : F64 := .finite 1000

def MAX_STRING_MULTIPLY : ℤ := 100000

def Num.toDouble : Num → F64
  | .int n => .finite n
  | .double x => x

/-- A double is cut off; what is not finite has no integer. -/
def Num.toInt : Num → Option ℤ
  | .int n => some n
  | .double (.finite q) => some (Js.trunc q)
  | .double _ => none

def Num.onBoth (onInt : ℤ → ℤ → ℤ) (onDouble : F64 → F64 → F64) : Num → Num → Num
  | .int m, .int n => .int (onInt m n)
  | a, b => .double (onDouble a.toDouble b.toDouble)

def Num.neg : Num → Num
  | .int n => .int (-n)
  | .double x => .double (Js.neg x)

def truthy : DartValue → Bool
  | .null => false
  | .bool b => b
  | .num n => decide (n.toDouble ≠ .finite 0)
  | .str s => s != ""
  | .list vs => !vs.isEmpty
  | .map kvs => !kvs.isEmpty

def numeric : DartValue → Option Num
  | .bool b => some (.int (if b then 1 else 0))
  | .num n => some n
  | _ => none

def asDouble (v : DartValue) : Option F64 := (numeric v).map Num.toDouble

def asInt (v : DartValue) : Option ℤ := (numeric v).bind Num.toInt

def onNumbers (f : Num → Num → Num) (x y : DartValue) : Option DartValue := do
  some (.num (f (← numeric x) (← numeric y)))

def byNumber (f : Num → Num → Num) (x y : DartValue) : Option DartValue := do
  let d ← numeric y
  if d.toDouble = .finite 0 then none else some (.num (f (← numeric x) d))

def repeated (s : String) (count : ℤ) : Option DartValue :=
  if MAX_STRING_MULTIPLY < count then none
  else some (.str (if count ≤ 0 then "" else String.join (List.replicate count.toNat s)))

/-- `math.pow` on doubles. -/
def pow (power : ℚ → ℚ → ℚ) : F64 → F64 → F64
  | .finite p, .infinite neg =>
    if |p| = 1 then .finite 1 else Js.pow power (.finite p) (.infinite neg)
  | .finite p, .nan => if p = 1 then .finite 1 else .nan
  | x, y => Js.pow power x y

variable (dart : Dart)

/-- `_power` on an exponent that is not too large. -/
def powerNum : Num → Num → Num
  | .int m, .int n =>
    if 0 ≤ n then .int (m ^ n.toNat) else .double (pow dart.powerOf (.finite m) (.finite n))
  | a, b => .double (pow dart.powerOf a.toDouble b.toDouble)

/-- `_add`, `_subtract`, `_multiply`, `_divide`, `_floorDivide`, `_modulo` and `_power`. -/
def binary : BinOp → DartValue → DartValue → Option DartValue
  | .add, .str s, .str t => some (.str (s ++ t))
  | .add, x, y => onNumbers (Num.onBoth (· + ·) Js.add) x y
  | .sub, x, y => onNumbers (Num.onBoth (· - ·) fun p q => Js.add p (Js.neg q)) x y
  | .mult, .str s, y => (asInt y).bind (repeated s)
  | .mult, x, .str s => (asInt x).bind (repeated s)
  | .mult, x, y => onNumbers (Num.onBoth (· * ·) Js.mul) x y
  | .div, x, y => byNumber (fun a b => .double (Js.div a.toDouble b.toDouble)) x y
  | .floorDiv, x, y =>
    byNumber (Num.onBoth (fun m n => ⌊(m : ℚ) / n⌋) fun p d => Js.floor (Js.div p d)) x y
  | .mod, x, y =>
    byNumber (Num.onBoth (fun m n => m - ⌊(m : ℚ) / n⌋ * n)
      fun p d => Js.add p (Js.neg (Js.mul (Js.floor (Js.div p d)) d))) x y
  | .pow, x, y => do
    let a ← numeric x
    let b ← numeric y
    if Js.lt MAX_POW_EXPONENT b.toDouble then none else some (.num (dart.powerNum a b))

def unary : UnaryOp → DartValue → Option DartValue
  | .not, x => some (.bool (!truthy x))
  | .uSub, x => (numeric x).map fun n => .num n.neg
  | .uAdd, x => (numeric x).map .num

mutual

def pyEquals : DartValue → DartValue → Bool
  | .null, .null => true
  | .str s, .str t => s == t
  | .list vs, .list ws => vs.length == ws.length && pyEqualsItems vs ws
  | .map kvs, .map lvs => dart.same kvs lvs
  | x, y => match asDouble x, asDouble y with
    | some p, some q => Js.eq p q
    | _, _ => false

def pyEqualsItems : List DartValue → List DartValue → Bool
  | v :: vs, w :: ws => pyEquals v w && pyEqualsItems vs ws
  | _, _ => true

end

def codeUnits (c : Char) : List ℕ :=
  if c.toNat < 65536 then [c.toNat]
  else [55296 + (c.toNat - 65536) / 1024, 56320 + (c.toNat - 65536) % 1024]

/-- `a.compareTo(b)` on texts, which is by code units. -/
def compareTexts (s t : String) : Ordering :=
  compareOfLessAndEq (s.toList.flatMap codeUnits) (t.toList.flatMap codeUnits)

/-- `a.compareTo(b)` on doubles: nothing is after what is no number. -/
def compareDoubles : F64 → F64 → Ordering
  | .nan, .nan => .eq
  | .nan, _ => .gt
  | _, .nan => .lt
  | p, q => if Js.lt p q then .lt else if Js.lt q p then .gt else .eq

def pyCompare : DartValue → DartValue → Option Ordering
  | .str s, .str t => some (compareTexts s t)
  | x, y => do some (compareDoubles (← asDouble x) (← asDouble y))

def passed : CmpOp → DartValue → DartValue → Option Bool
  | .eq, x, y => some (dart.pyEquals x y)
  | .notEq, x, y => some (!dart.pyEquals x y)
  | .lt, x, y => (pyCompare x y).map Ordering.isLT
  | .ltE, x, y => (pyCompare x y).map Ordering.isLE
  | .gt, x, y => (pyCompare x y).map Ordering.isGT
  | .gtE, x, y => (pyCompare x y).map Ordering.isGE

/-! ### Tokens -/

/-- `ch.trim()` is empty. -/
def isSpace (c : Char) : Bool :=
  let code := c.toNat
  (decide (9 ≤ code) && decide (code ≤ 13)) || (decide (8192 ≤ code) && decide (code ≤ 8202)) ||
    [32, 133, 160, 5760, 8232, 8233, 8239, 8287, 12288, 65279].contains code

def spanNumber (cs : List Char) : List Char × List Char :=
  (cs.takeWhile fun c => c.isDigit || c == '_', cs.dropWhile fun c => c.isDigit || c == '_')

def pointPart : List Char → List Char × List Char
  | '.' :: cs => ('.' :: (spanNumber cs).1, (spanNumber cs).2)
  | cs => ([], cs)

/-- `_number`: a number without its underscores, which has a digit. -/
def scanNumber (cs : List Char) : List Char × List Char :=
  let whole := spanNumber cs
  let fraction := pointPart whole.2
  let exponent := exponentPart spanDigits fraction.2
  ((whole.1 ++ fraction.1 ++ exponent.1).filter (· != '_'), exponent.2)

/-- What such a number stands for: a double if it has a point or an exponent. -/
def literal (text : List Char) : Value :=
  if text.all Char.isDigit then .int (digitsValue text)
  else .float ((readDecimal text).getD 0)

def escaped : Char → Char
  | 'n' => '\n'
  | 't' => '\t'
  | 'r' => '\r'
  | c => c

/-- `_string`: a text, up to its quote. -/
def scanText (quote : Char) : List Char → Option (List Char × List Char)
  | '\x5c' :: c :: cs => (scanText quote cs).map fun r => (escaped c :: r.1, r.2)
  | c :: cs => if c = quote then some ([], cs) else (scanText quote cs).map fun r => (c :: r.1, r.2)
  | [] => none

def OPERATORS : List String :=
  ["**", "//", "==", "!=", "<=", ">=", "<", ">", "+", "-", "*", "/", "%", "(", ")", "[", "]", ","]

/-- `tokenize`, in at most `n` steps: a number stands without its underscores, and a text as it
    is read. -/
def tokenize : ℕ → List Char → Option (List Token)
  | 0, _ => none
  | _ + 1, [] => some []
  | n + 1, c :: cs =>
    if isSpace c then tokenize n cs
    else if c.isDigit || (c == '.' && startsDigit cs) then
      (tokenize n (scanNumber (c :: cs)).2).map (.num (scanNumber (c :: cs)).1 :: ·)
    else if c = '\x22' ∨ c = '\x27' then
      (scanText c cs).bind fun r => (tokenize n r.2).map (.str r.1 :: ·)
    else if wordStart c then
      (tokenize n (cs.dropWhile wordChar)).map
        (.name (String.ofList (c :: cs.takeWhile wordChar)) :: ·)
    else (operator OPERATORS (c :: cs)).bind fun r => (tokenize n r.2).map (.op r.1 :: ·)

/-! ### Parser -/

def RESERVED : List String :=
  ["if", "else", "and", "or", "not", "in", "is", "for", "lambda", "await"]

def whileName (word : String) (operand : Reader Expr) : ℕ → List Expr → Reader (List Expr)
  | 0, values, ts => some (values, ts)
  | n + 1, values, ts =>
    match eatName word ts with
    | some ts => do
      let r ← operand ts
      whileName word operand n (values ++ [r.1]) r.2
    | none => some (values, ts)

def whileOp (ops : List BinOp) (operand : Reader Expr) : ℕ → Expr → Reader Expr
  | 0, left, ts => some (left, ts)
  | n + 1, left, ts =>
    match eatAny BinOp.text ops ts with
    | some (op, ts) => do
      let r ← operand ts
      whileOp ops operand n (.binOp left op r.1) r.2
    | none => some (left, ts)

def COMPARISONS : List CmpOp := [.eq, .notEq, .lt, .ltE, .gt, .gtE]

/-- The loop of `_parseComparison`. -/
def whileCompare (operand : Reader Expr) :
    ℕ → List CmpOp → List Expr → Reader (List CmpOp × List Expr)
  | 0, ops, comparators, ts => some ((ops, comparators), ts)
  | n + 1, ops, comparators, ts =>
    match eatAny CmpOp.text COMPARISONS ts with
    | some (op, ts) => do
      let r ← operand ts
      whileCompare operand n (ops ++ [op]) (comparators ++ [r.1]) r.2
    | none => some ((ops, comparators), ts)

/-- The rest of a list, up to its bracket, before which a comma may stand. -/
def whileComma (close : String) (item : Reader Expr) : ℕ → List Expr → Reader (List Expr)
  | 0, _, _ => none
  | n + 1, items, ts =>
    match eatOp "," ts with
    | some ts =>
      match eatOp close ts with
      | some rest => some (items, rest)
      | none => do
        let r ← item ts
        whileComma close item n (items ++ [r.1]) r.2
    | none => (eatOp close ts).map (items, ·)

def itemsUpTo (close : String) (item : Reader Expr) : Reader (List Expr) := fun ts =>
  match eatOp close ts with
  | some rest => some ([], rest)
  | none => do
    let r ← item ts
    whileComma close item (r.2.length + 1) [r.1] r.2

mutual

/-- `parseExpression`, of the methods that still may be called within one another. -/
def parseExpression : ℕ → Reader Expr
  | 0, _ => none
  | n + 1, ts => do
    let body ← parseOr n ts
    match eatName "if" body.2 with
    | some ts => do
      let test ← parseOr n ts
      let ts ← eatName "else" test.2
      let orelse ← parseExpression n ts
      some (.ifExp test.1 body.1 orelse.1, orelse.2)
    | none => some body

def parseOr : ℕ → Reader Expr
  | 0, _ => none
  | n + 1, ts => do
    let node ← parseAnd n ts
    let values ← whileName "or" (parseAnd n) node.2.length [node.1] node.2
    some (boolExpr .or values.1, values.2)

def parseAnd : ℕ → Reader Expr
  | 0, _ => none
  | n + 1, ts => do
    let node ← parseNot n ts
    let values ← whileName "and" (parseNot n) node.2.length [node.1] node.2
    some (boolExpr .and values.1, values.2)

def parseNot : ℕ → Reader Expr
  | 0, _ => none
  | n + 1, ts =>
    match eatName "not" ts with
    | some ts => do
      let operand ← parseNot n ts
      some (.unaryOp .not operand.1, operand.2)
    | none => parseComparison n ts

def parseComparison : ℕ → Reader Expr
  | 0, _ => none
  | n + 1, ts => do
    let left ← parseArithmetic n ts
    let chain ← whileCompare (parseArithmetic n) left.2.length [] [] left.2
    if (eatName "in" chain.2).isSome || (eatName "is" chain.2).isSome then none
    else some (compareExpr left.1 chain.1.1 chain.1.2, chain.2)

def parseArithmetic : ℕ → Reader Expr
  | 0, _ => none
  | n + 1, ts => do
    let node ← parseTerm n ts
    whileOp [.add, .sub] (parseTerm n) node.2.length node.1 node.2

def parseTerm : ℕ → Reader Expr
  | 0, _ => none
  | n + 1, ts => do
    let node ← parseUnary n ts
    whileOp [.mult, .div, .floorDiv, .mod] (parseUnary n) node.2.length node.1 node.2

def parseUnary : ℕ → Reader Expr
  | 0, _ => none
  | n + 1, ts =>
    match eatOp "+" ts, eatOp "-" ts with
    | some ts, _ => do
      let operand ← parseUnary n ts
      some (.unaryOp .uAdd operand.1, operand.2)
    | none, some ts => do
      let operand ← parseUnary n ts
      some (.unaryOp .uSub operand.1, operand.2)
    | none, none => parsePower n ts

def parsePower : ℕ → Reader Expr
  | 0, _ => none
  | n + 1, ts => do
    let base ← parseAtom n ts
    match eatOp "**" base.2 with
    | some ts => do
      let exponent ← parseUnary n ts
      some (.binOp base.1 .pow exponent.1, exponent.2)
    | none => some base

def parseAtom : ℕ → Reader Expr
  | 0, _ => none
  | n + 1, ts =>
    match ts with
    | .num text :: ts => some (.constant (literal text), ts)
    | .str text :: ts => some (.constant (.str (String.ofList text)), ts)
    | .name s :: ts =>
      if s ∈ RESERVED then none
      else match eatOp "(" ts with
        | some ts => do
          let args ← itemsUpTo ")" (parseExpression n) ts
          some (.call s args.1, args.2)
        | none => some (.name s, ts)
    | .op o :: ts =>
      if o = "(" then
        match eatOp ")" ts with
        | some ts => some (.list [], ts)
        | none => do
          let first ← parseExpression n ts
          match eatOp "," first.2 with
          | some _ => do
            let items ← whileComma ")" (parseExpression n) (first.2.length + 1) [first.1] first.2
            some (.list items.1, items.2)
          | none => do some (first.1, ← eatOp ")" first.2)
      else if o = "[" then do
        let items ← itemsUpTo "]" (parseExpression n) ts
        some (.list items.1, items.2)
      else none
    | [] => none

end

/-! ### Evaluation -/

/-- What `and` and `or` come to, of the values of all their operands. -/
def selected : BoolOp → List DartValue → Option DartValue
  | .and, vs => (vs.find? fun v => !truthy v).or vs.getLast?
  | .or, vs => (vs.find? truthy).or vs.getLast?

/-- The comparisons of a chain, up to the first that does not hold. -/
def evalCompares (eval : Expr → Option DartValue) :
    DartValue → List CmpOp → List Expr → Option DartValue
  | left, op :: ops, e :: es => do
    let right ← eval e
    if ← dart.passed op left right then evalCompares eval right ops es else some (.bool false)
  | _, _, _ => some (.bool true)

section Evaluator
variable (functions : String → Option (List DartValue → Option DartValue))
  (context : List (String × DartValue))

/-- `_Evaluator.eval`, of which at most so many may be open. -/
def eval : ℕ → Expr → Option DartValue
  | 0, _ => none
  | _ + 1, .constant v => some (ofJson v)
  | _ + 1, .name id => context.lookup id
  | n + 1, .unaryOp op operand => do unary op (← eval n operand)
  | n + 1, .binOp left op right => do dart.binary op (← eval n left) (← eval n right)
  | n + 1, .boolOp op values => do selected op (← values.mapM (eval n))
  | n + 1, .compare left ops comparators => do
    dart.evalCompares (eval n) (← eval n left) ops comparators
  | n + 1, .ifExp test body orelse => do
    if truthy (← eval n test) then eval n body else eval n orelse
  | n + 1, .call name args => do (← functions name) (← args.mapM (eval n))
  | n + 1, .list elements => (elements.mapM (eval n)).map .list

/-- `evaluateFormula`: the outermost call is at depth zero. -/
def evaluateFormula (formula : List Char) : Option DartValue :=
  if MAX_SOURCE_LENGTH < Browser.utf16Length formula then none
  else do
    let ts ← tokenize (formula.length + 1) formula
    let node ← parseExpression (MAX_DEPTH + 1) ts
    if node.2 = [] then dart.eval functions context (MAX_DEPTH + 1) node.1 else none

end Evaluator

end Dart

end RuleMind.Formula
