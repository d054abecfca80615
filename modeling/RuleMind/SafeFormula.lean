/-
  Formulas on the server: `evaluate_formula` of `app/safe_formula.py`.

  `ast.parse` is Python's own.  The part of its language that a formula is made of is given by
  a lexer (`lex`) and by the rules of its grammar (`Reads`): a rule takes the longest text it
  can, and `d` is how deep rules nest.  A comment, a text with a prefix or in three quotes, a
  number that is not decimal and a tuple are no part of it.

  A complex number and what an infinity is in arithmetic are left out: no value stands for them.
-/
import RuleMind.VariableCode

namespace RuleMind.Formula

open VarCode
open Text (digitsValue readDecimal)

structure Python where
  /-- the characters outside ASCII that a name starts with, and goes on with -/
  letter : Char → Bool
  part : Char → Bool
  /-- a positive number to a power that is no whole number -/
  power : ℚ → ℚ → ℚ
  /-- `text % value` -/
  format : String → Value → Option Value

/-! ### Tokens -/

inductive Token
  /-- a number, as it is written -/
  | num (lit : List Char)
  /-- a text, as it is written between its quotes -/
  | str (lit : List Char)
  | name (s : String)
  | op (s : String)
  deriving DecidableEq

def isBlank (c : Char) : Bool := c == ' ' || c == '\t'

def isNewline (c : Char) : Bool := c == '\n' || c == '\r'

def startsDigit (cs : List Char) : Bool := cs.head?.any Char.isDigit

def moreDigits : List Char → List Char × List Char
  | '_' :: c :: cs =>
    if c.isDigit then ('_' :: c :: (moreDigits cs).1, (moreDigits cs).2) else ([], '_' :: c :: cs)
  | c :: cs => if c.isDigit then (c :: (moreDigits cs).1, (moreDigits cs).2) else ([], c :: cs)
  | [] => ([], [])

/-- `digitpart` of Python's numbers, if one is there. -/
def digitPart (cs : List Char) : List Char × List Char :=
  if startsDigit cs then moreDigits cs else ([], cs)

def signPart : List Char → List Char × List Char
  | '+' :: cs => (['+'], cs)
  | '-' :: cs => (['-'], cs)
  | cs => ([], cs)

def exponentPart (digits : List Char → List Char × List Char) : List Char → List Char × List Char
  | c :: cs =>
    if (c = 'e' ∨ c = 'E') ∧ startsDigit (signPart cs).2 then
      (c :: (signPart cs).1 ++ (digits (signPart cs).2).1, (digits (signPart cs).2).2)
    else ([], c :: cs)
  | [] => ([], [])

def fractionPart : List Char → List Char × List Char
  | '.' :: cs => ('.' :: (digitPart cs).1, (digitPart cs).2)
  | cs => ([], cs)

/-- A decimal number; of the whole ones only zero starts with a zero. -/
def number (cs : List Char) : Option (List Char × List Char) :=
  let whole := digitPart cs
  let fraction := fractionPart whole.2
  let exponent := exponentPart digitPart fraction.2
  if fraction.1 = [] ∧ exponent.1 = [] ∧ whole.1.head? = some '0' ∧
      (whole.1.any fun c => c != '0' && c != '_') = true then none
  else some (whole.1 ++ fraction.1 ++ exponent.1, exponent.2)

def quoted (quote : Char) : List Char → Option (List Char × List Char)
  | '\x5c' :: c :: cs => (quoted quote cs).map fun r => ('\x5c' :: c :: r.1, r.2)
  | c :: cs =>
    if c = quote then some ([], cs)
    else if isNewline c then none
    else (quoted quote cs).map fun r => (c :: r.1, r.2)
  | [] => none

def OPERATORS : List String :=
  ["**", "//", "==", "!=", "<=", ">=", "(", ")", "[", "]", ",", "+", "-", "*", "/", "%", "<", ">"]

/-- The first of some operators that a text starts with. -/
def operator (operators : List String) (cs : List Char) : Option (String × List Char) :=
  (operators.find? fun o => o.toList.isPrefixOf cs).map fun o => (o, cs.drop o.toList.length)

def nesting (depth : ℕ) (o : String) : ℕ :=
  if o = "(" ∨ o = "[" then depth + 1 else if o = ")" ∨ o = "]" then depth - 1 else depth

theorem moreDigits_append (cs : List Char) : (moreDigits cs).1 ++ (moreDigits cs).2 = cs := by
  induction cs using moreDigits.induct with
  | case1 c cs hc ih => simp [moreDigits, hc, ih]
  | case2 c cs hc => simp [moreDigits, hc]
  | case3 c cs hne hc ih => rw [moreDigits.eq_2 _ _ hne, if_pos hc, List.cons_append, ih]
  | case4 c cs hne hc => rw [moreDigits.eq_2 _ _ hne, if_neg hc, List.nil_append]
  | case5 => rfl

theorem digitPart_append (cs : List Char) : (digitPart cs).1 ++ (digitPart cs).2 = cs := by
  unfold digitPart
  split
  · exact moreDigits_append cs
  · rfl

theorem digitPart_ne_nil {cs : List Char} (h : startsDigit cs = true) : (digitPart cs).1 ≠ [] := by
  cases cs with
  | nil => cases h
  | cons c cs =>
    have hc : c.isDigit = true := h
    have hne : ∀ c' cs', c = '_' → cs = c' :: cs' → False := by
      rintro _ _ rfl
      exact absurd hc (by decide)
    rw [digitPart, if_pos h, moreDigits.eq_2 _ _ hne, if_pos hc]
    exact List.cons_ne_nil _ _

theorem fractionPart_append (cs : List Char) : (fractionPart cs).1 ++ (fractionPart cs).2 = cs := by
  unfold fractionPart
  split
  · rw [List.cons_append, digitPart_append]
  · rfl

theorem signPart_append (cs : List Char) : (signPart cs).1 ++ (signPart cs).2 = cs := by
  unfold signPart
  split <;> rfl

theorem exponentPart_append {digits : List Char → List Char × List Char}
    (h : ∀ cs, (digits cs).1 ++ (digits cs).2 = cs) (cs : List Char) :
    (exponentPart digits cs).1 ++ (exponentPart digits cs).2 = cs := by
  unfold exponentPart
  grind [signPart_append]

variable {cs : List Char} {r : List Char × List Char}

theorem number_append (h : number cs = some r) : r.1 ++ r.2 = cs := by
  grind [number, exponentPart_append, digitPart_append, fractionPart_append]

theorem number_length {c : Char}
    (hc : (c.isDigit || (c == '.' && startsDigit cs)) = true) (h : number (c :: cs) = some r) :
    r.2.length < (c :: cs).length := by
  have hlen := congrArg List.length (number_append h)
  rw [List.length_append] at hlen
  have hne : r.1 ≠ [] := by
    unfold number at h
    simp only at h
    split at h
    · cases h
    · cases h
      rw [Bool.or_eq_true, Bool.and_eq_true, beq_iff_eq] at hc
      obtain hc | ⟨rfl, -⟩ := hc
      · have := @digitPart_ne_nil (c :: cs) hc
        simp [this]
      · simp [digitPart, startsDigit, fractionPart, show Char.isDigit '.' = false by decide]
  have := List.length_pos_iff.2 hne
  omega

theorem quoted_suffix {quote : Char} (h : quoted quote cs = some r) : r.2 <:+ cs := by
  induction cs using quoted.induct quote generalizing r with
  | case1 c cs ih =>
    rw [quoted, Option.map_eq_some_iff] at h
    obtain ⟨r', hr', rfl⟩ := h
    grind [List.suffix_cons]
  | case2 cs hne =>
    rw [quoted.eq_2 _ _ _ hne, if_pos rfl] at h
    cases h
    exact List.suffix_cons _ _
  | case3 c cs hne hc hnl =>
    rw [quoted.eq_2 _ _ _ hne, if_neg hc, if_pos hnl] at h
    cases h
  | case4 c cs hne hc hnl ih =>
    rw [quoted.eq_2 _ _ _ hne, if_neg hc, if_neg hnl, Option.map_eq_some_iff] at h
    grind
  | case5 => cases h

theorem operator_drop {ops : List String} {r : String × List Char}
    (h : operator ops cs = some r) : r.1 ∈ ops ∧ r.2 = cs.drop r.1.toList.length := by
  grind [operator, Option.map_eq_some_iff]

theorem operator_length {c : Char} {r : String × List Char}
    (h : operator OPERATORS (c :: cs) = some r) : r.2.length < (c :: cs).length := by
  obtain ⟨hmem, hr⟩ := operator_drop h
  have hpos : ∀ o ∈ OPERATORS, 0 < o.toList.length := by decide
  rw [hr, List.length_drop]
  exact Nat.sub_lt (Nat.succ_pos _) (hpos _ hmem)

section Lex
variable (py : Python)

def Python.nameStart (c : Char) : Bool :=
  c.isAlpha || c == '_' || (decide (128 ≤ c.toNat) && py.letter c)

def Python.nameChar (c : Char) : Bool :=
  py.nameStart c || c.isDigit || (decide (128 ≤ c.toNat) && py.part c)

inductive Place
  | start
  | indented
  | within
  deriving DecidableEq

/-- The tokens of a text, in at most `n` steps.  A line that is indented has no token, and a line
    that ends outside brackets is the last one with any. -/
def lex : ℕ → ℕ → Place → List Char → Option (List Token)
  | 0, _, _, _ => none
  | _ + 1, _, _, [] => some []
  | n + 1, depth, place, c :: cs =>
    if isBlank c then lex n depth (if place = .start then .indented else place) cs
    else if isNewline c then
      if depth = 0 ∧ place = .within then
        if cs.all fun c => isBlank c || isNewline c then some [] else none
      else lex n depth (if depth = 0 then .start else place) cs
    else if place = .indented then none
    else if c.isDigit || (c == '.' && startsDigit cs) then
      (number (c :: cs)).bind fun r => (lex n depth .within r.2).map (.num r.1 :: ·)
    else if c = '\x22' ∨ c = '\x27' then
      if [c, c].isPrefixOf cs then none
      else (quoted c cs).bind fun r => (lex n depth .within r.2).map (.str r.1 :: ·)
    else if py.nameStart c then
      (lex n depth .within (cs.dropWhile py.nameChar)).map
        (.name (String.ofList (c :: cs.takeWhile py.nameChar)) :: ·)
    else (operator OPERATORS (c :: cs)).bind fun r =>
      (lex n (nesting depth r.1) .within r.2).map (.op r.1 :: ·)

end Lex

/-! ### Syntax trees -/

inductive BinOp
  | add | sub | mult | div | floorDiv | mod | pow
  deriving DecidableEq

inductive UnaryOp
  | not | uSub | uAdd
  deriving DecidableEq

inductive BoolOp
  | and | or
  deriving DecidableEq

inductive CmpOp
  | eq | notEq | lt | ltE | gt | gtE
  deriving DecidableEq

inductive Expr
  | constant (v : Value)
  | name (id : String)
  | binOp (left : Expr) (op : BinOp) (right : Expr)
  | unaryOp (op : UnaryOp) (operand : Expr)
  | boolOp (op : BoolOp) (values : List Expr)
  | compare (left : Expr) (ops : List CmpOp) (comparators : List Expr)
  | ifExp (test body orelse : Expr)
  | call (func : String) (args : List Expr)
  | list (elts : List Expr)

def BinOp.text : BinOp → String
  | add => "+"
  | sub => "-"
  | mult => "*"
  | div => "/"
  | floorDiv => "//"
  | mod => "%"
  | pow => "**"

def CmpOp.text : CmpOp → String
  | eq => "=="
  | notEq => "!="
  | lt => "<"
  | ltE => "<="
  | gt => ">"
  | gtE => ">="

def BoolOp.word : BoolOp → String
  | and => "and"
  | or => "or"

def KEYWORDS : List String :=
  ["False", "None", "True", "and", "as", "assert", "async", "await", "break", "class", "continue",
    "def", "del", "elif", "else", "except", "finally", "for", "from", "global", "if", "import",
    "in", "is", "lambda", "nonlocal", "not", "or", "pass", "raise", "return", "try", "while",
    "with", "yield"]

def keywordValue : String → Option Value
  | "True" => some (.bool true)
  | "False" => some (.bool false)
  | "None" => some .null
  | _ => none

def literalValue (lit : List Char) : Value :=
  let digits := lit.filter (· != '_')
  if lit.all fun c => c.isDigit || c == '_' then .int (digitsValue digits)
  else .float ((readDecimal digits).getD 0)

def hexValue (c : Char) : Option ℕ :=
  if c.isDigit then some (c.toNat - '0'.toNat)
  else if 'a' ≤ c ∧ c ≤ 'f' then some (c.toNat - 'a'.toNat + 10)
  else if 'A' ≤ c ∧ c ≤ 'F' then some (c.toNat - 'A'.toNat + 10)
  else none

/-- The character of exactly that many hexadecimal digits; half a surrogate pair is left out. -/
def hexChar (digits : List Char) (count : ℕ) : Option Char :=
  if digits.length = count then
    ((digits.mapM hexValue).map fun ns => ns.foldl (fun n d => 16 * n + d) 0).bind fun (code : ℕ) =>
      if code.isValidChar then some (Char.ofNat code) else none
  else none

def octal (c : Char) : Bool := decide ('0' ≤ c) && decide (c ≤ '7')

def simpleEscape : Char → Option (List Char)
  | '\n' => some []
  | '\x5c' => some ['\x5c']
  | '\x27' => some ['\x27']
  | '\x22' => some ['\x22']
  | 'a' => some ['\x07']
  | 'b' => some ['\x08']
  | 'f' => some ['\x0c']
  | 'n' => some ['\n']
  | 'r' => some ['\r']
  | 't' => some ['\t']
  | 'v' => some ['\x0b']
  | _ => none

def hexEscape : Char → Option ℕ
  | 'x' => some 2
  | 'u' => some 4
  | 'U' => some 8
  | _ => none

/-- The text that a literal stands for, in at most `n` steps; a character by its name is left
    out. -/
def unescape : ℕ → List Char → Option (List Char)
  | 0, _ => none
  | _ + 1, [] => some []
  | n + 1, '\x5c' :: c :: cs =>
    match simpleEscape c, hexEscape c with
    | some s, _ => (unescape n cs).map (s ++ ·)
    | none, some count =>
      (hexChar (cs.take count) count).bind fun h => (unescape n (cs.drop count)).map (h :: ·)
    | none, none =>
      if octal c then
        let digits := (c :: cs.take 2).takeWhile octal
        (unescape n ((c :: cs).drop digits.length)).map (Char.ofNat (digits.foldl
          (fun n d => 8 * n + (d.toNat - '0'.toNat)) 0) :: ·)
      else if c = 'N' then none
      else (unescape n cs).map fun s => '\x5c' :: c :: s
  | n + 1, c :: cs => (unescape n cs).map (c :: ·)

def textValue (lit : List Char) : Option String := (unescape (lit.length + 1) lit).map String.ofList

/-! ### The grammar -/

inductive Level
  | sum | term
  deriving DecidableEq

def Level.ops : Level → List BinOp
  | sum => [.add, .sub]
  | term => [.mult, .div, .floorDiv, .mod]

/-- What is read: a rule of the grammar, or how one goes on after what it has read. -/
inductive Goal
  | expression
  | bools (op : BoolOp)
  | moreBools (op : BoolOp) (values : List Expr)
  | inversion
  | comparison
  | moreCompares (left : Expr) (ops : List CmpOp) (comparators : List Expr)
  | binary (lvl : Level)
  | moreBinary (lvl : Level) (left : Expr)
  | factor
  | power
  | atom
  | items (close : String)
  | moreItems (close : String) (elts : List Expr)

/-- The operands of `or` are conjunctions, and those of `and` are inversions. -/
def BoolOp.operand : BoolOp → Goal
  | or => .bools .and
  | and => .inversion

def Level.operand : Level → Goal
  | sum => .binary .term
  | term => .factor

def boolExpr (op : BoolOp) : List Expr → Expr
  | [e] => e
  | es => .boolOp op es

def compareExpr (left : Expr) : List CmpOp → List Expr → Expr
  | [], _ => left
  | ops, comparators => .compare left ops comparators

structure Style where
  number : List Char → Prop
  text : List Char → Prop
  /-- a list may end in a comma -/
  commas : Prop

def Style.python : Style := ⟨fun _ => True, fun _ => True, True⟩

/-- A rule reads an expression off some tokens and leaves the rest of them. -/
inductive Reads (style : Style) : ℕ → Goal → List Token → Expr → List Token → Prop
  | ifExp {d ts ts₁ ts₂ rest body test orelse} :
      Reads style d (.bools .or) ts body (.name "if" :: ts₁) →
      Reads style d (.bools .or) ts₁ test (.name "else" :: ts₂) →
      Reads style d .expression ts₂ orelse rest →
      Reads style (d + 1) .expression ts (.ifExp test body orelse) rest
  | disjunction {d ts e rest} :
      Reads style d (.bools .or) ts e rest → rest.head? ≠ some (.name "if") →
      Reads style (d + 1) .expression ts e rest
  | bools {d op ts e ts₁ e' rest} :
      Reads style d op.operand ts e ts₁ → Reads style d (.moreBools op [e]) ts₁ e' rest →
      Reads style (d + 1) (.bools op) ts e' rest
  | nextBool {d op es ts e ts₁ e' rest} :
      Reads style d op.operand ts e ts₁ → Reads style d (.moreBools op (es ++ [e])) ts₁ e' rest →
      Reads style d (.moreBools op es) (.name op.word :: ts) e' rest
  | lastBool {d op es rest} : rest.head? ≠ some (.name op.word) →
      Reads style d (.moreBools op es) rest (boolExpr op es) rest
  | not {d ts e rest} : Reads style d .inversion ts e rest →
      Reads style (d + 1) .inversion (.name "not" :: ts) (.unaryOp .not e) rest
  | noNot {d ts e rest} :
      ts.head? ≠ some (.name "not") → Reads style d .comparison ts e rest →
      Reads style (d + 1) .inversion ts e rest
  | comparison {d ts e ts₁ e' rest} :
      Reads style d (.binary .sum) ts e ts₁ → Reads style d (.moreCompares e [] []) ts₁ e' rest →
      Reads style (d + 1) .comparison ts e' rest
  | nextCompare {d left ops cs op ts e ts₁ e' rest} :
      Reads style d (.binary .sum) ts e ts₁ →
      Reads style d (.moreCompares left (ops ++ [op]) (cs ++ [e])) ts₁ e' rest →
      Reads style d (.moreCompares left ops cs) (.op op.text :: ts) e' rest
  | lastCompare {d left ops cs rest} : (∀ op : CmpOp, rest.head? ≠ some (.op op.text)) →
      Reads style d (.moreCompares left ops cs) rest (compareExpr left ops cs) rest
  | binary {d lvl ts e ts₁ e' rest} :
      Reads style d lvl.operand ts e ts₁ → Reads style d (.moreBinary lvl e) ts₁ e' rest →
      Reads style (d + 1) (.binary lvl) ts e' rest
  | nextBinary {d lvl left op ts e ts₁ e' rest} : op ∈ lvl.ops →
      Reads style d lvl.operand ts e ts₁ →
      Reads style d (.moreBinary lvl (.binOp left op e)) ts₁ e' rest →
      Reads style d (.moreBinary lvl left) (.op op.text :: ts) e' rest
  | lastBinary {d lvl left rest} : (∀ op ∈ lvl.ops, rest.head? ≠ some (.op op.text)) →
      Reads style d (.moreBinary lvl left) rest left rest
  | minus {d ts e rest} : Reads style d .factor ts e rest →
      Reads style (d + 1) .factor (.op "-" :: ts) (.unaryOp .uSub e) rest
  | plus {d ts e rest} : Reads style d .factor ts e rest →
      Reads style (d + 1) .factor (.op "+" :: ts) (.unaryOp .uAdd e) rest
  | noSign {d ts e rest} : ts.head? ≠ some (.op "-") → ts.head? ≠ some (.op "+") →
      Reads style d .power ts e rest → Reads style (d + 1) .factor ts e rest
  | power {d ts base ts₁ exponent rest} :
      Reads style d .atom ts base (.op "**" :: ts₁) → Reads style d .factor ts₁ exponent rest →
      Reads style (d + 1) .power ts (.binOp base .pow exponent) rest
  | noPower {d ts e rest} :
      Reads style d .atom ts e rest → rest.head? ≠ some (.op "**") →
      Reads style (d + 1) .power ts e rest
  | num {d lit rest} : style.number lit →
      Reads style (d + 1) .atom (.num lit :: rest) (.constant (literalValue lit)) rest
  | str {d lit s rest} : style.text lit → textValue lit = some s →
      Reads style (d + 1) .atom (.str lit :: rest) (.constant (.str s)) rest
  | keyword {d s v rest} : keywordValue s = some v →
      Reads style (d + 1) .atom (.name s :: rest) (.constant v) rest
  | name {d s rest} : s ∉ KEYWORDS → rest.head? ≠ some (.op "(") →
      Reads style (d + 1) .atom (.name s :: rest) (.name s) rest
  | call {d s ts es rest} : s ∉ KEYWORDS → Reads style d (.items ")") ts (.list es) rest →
      Reads style (d + 1) .atom (.name s :: .op "(" :: ts) (.call s es) rest
  | group {d ts e rest} : Reads style d .expression ts e (.op ")" :: rest) →
      Reads style (d + 1) .atom (.op "(" :: ts) e rest
  | list {d ts es rest} : Reads style d (.items "]") ts (.list es) rest →
      Reads style (d + 1) .atom (.op "[" :: ts) (.list es) rest
  | noItems {d close rest} : Reads style d (.items close) (.op close :: rest) (.list []) rest
  | items {d close ts e ts₁ es rest} : ts.head? ≠ some (.op close) →
      Reads style d .expression ts e ts₁ → Reads style d (.moreItems close [e]) ts₁ es rest →
      Reads style d (.items close) ts es rest
  | nextItem {d close es ts e ts₁ es' rest} : ts.head? ≠ some (.op close) →
      Reads style d .expression ts e ts₁ →
      Reads style d (.moreItems close (es ++ [e])) ts₁ es' rest →
      Reads style d (.moreItems close es) (.op "," :: ts) es' rest
  | lastItem {d close es rest} :
      Reads style d (.moreItems close es) (.op close :: rest) (.list es) rest
  | lastComma {d close es rest} : style.commas →
      Reads style d (.moreItems close es) (.op "," :: .op close :: rest) (.list es) rest

/-- `ast.parse(formula, mode="eval")`, of rules that nest at most `d` deep. -/
def AstParse (py : Python) (style : Style) (d : ℕ) (text : List Char) (toks : List Token)
    (e : Expr) : Prop :=
  lex py (text.length + 1) 0 .start text = some toks ∧ Reads style d .expression toks e []

section Rules
variable {style : Style} {d : ℕ} {goal : Goal} {ts rest : List Token} {e : Expr}

theorem Reads.succ (h : Reads style d goal ts e rest) : Reads style (d + 1) goal ts e rest := by
  induction h with
  | ifExp _ _ _ ih₁ ih₂ ih₃ => exact .ifExp ih₁ ih₂ ih₃
  | disjunction _ hif ih => exact .disjunction ih hif
  | bools _ _ ih₁ ih₂ => exact .bools ih₁ ih₂
  | nextBool _ _ ih₁ ih₂ => exact .nextBool ih₁ ih₂
  | lastBool hop => exact .lastBool hop
  | not _ ih => exact .not ih
  | noNot hnot _ ih => exact .noNot hnot ih
  | comparison _ _ ih₁ ih₂ => exact .comparison ih₁ ih₂
  | nextCompare _ _ ih₁ ih₂ => exact .nextCompare ih₁ ih₂
  | lastCompare hop => exact .lastCompare hop
  | binary _ _ ih₁ ih₂ => exact .binary ih₁ ih₂
  | nextBinary hop _ _ ih₁ ih₂ => exact .nextBinary hop ih₁ ih₂
  | lastBinary hop => exact .lastBinary hop
  | minus _ ih => exact .minus ih
  | plus _ ih => exact .plus ih
  | noSign hminus hplus _ ih => exact .noSign hminus hplus ih
  | power _ _ ih₁ ih₂ => exact .power ih₁ ih₂
  | noPower _ hop ih => exact .noPower ih hop
  | num hlit => exact .num hlit
  | str hlit hs => exact .str hlit hs
  | keyword hv => exact .keyword hv
  | name hs hcall => exact .name hs hcall
  | call hs _ ih => exact .call hs ih
  | group _ ih => exact .group ih
  | list _ ih => exact .list ih
  | noItems => exact .noItems
  | items hne _ _ ih₁ ih₂ => exact .items hne ih₁ ih₂
  | nextItem hne _ _ ih₁ ih₂ => exact .nextItem hne ih₁ ih₂
  | lastItem => exact .lastItem
  | lastComma hc => exact .lastComma hc

theorem Reads.mono (h : Reads style d goal ts e rest) {d' : ℕ} (hd : d ≤ d') :
    Reads style d' goal ts e rest := by
  induction hd with
  | refl => exact h
  | step _ ih => exact ih.succ

theorem Reads.length_le (h : Reads style d goal ts e rest) : rest.length ≤ ts.length := by
  induction h with
  | _ => grind

def Style.allows (style : Style) : Token → Prop
  | .num lit => style.number lit
  | .str lit => style.text lit
  | _ => True

theorem Reads.allowed (h : Reads style d goal ts e rest) (hrest : ∀ t ∈ rest, style.allows t) :
    ∀ t ∈ ts, style.allows t := by
  induction h with
  | _ => grind [Style.allows]

theorem Reads.toFactor (h : Reads style d .atom ts e rest) (hminus : ts.head? ≠ some (.op "-"))
    (hplus : ts.head? ≠ some (.op "+")) (hpow : rest.head? ≠ some (.op "**")) :
    Reads style (d + 2) .factor ts e rest :=
  .noSign hminus hplus (.noPower h hpow)

theorem Reads.toSum (h : Reads style d .factor ts e rest)
    (hterm : ∀ op ∈ Level.term.ops, rest.head? ≠ some (.op op.text))
    (hsum : ∀ op ∈ Level.sum.ops, rest.head? ≠ some (.op op.text)) :
    Reads style (d + 2) (.binary .sum) ts e rest :=
  .binary (.binary h (.lastBinary hterm)) (.lastBinary hsum)

theorem Reads.toDisjunction (h : Reads style d .comparison ts e rest)
    (hnot : ts.head? ≠ some (.name "not")) (hand : rest.head? ≠ some (.name "and"))
    (hor : rest.head? ≠ some (.name "or")) : Reads style (d + 3) (.bools .or) ts e rest :=
  .bools (.bools (.noNot hnot h) (.lastBool hand)) (.lastBool hor)

end Rules

/-! ### Evaluation -/

section Evaluation
variable (py : Python)

/-- `left // right`. -/
def pyFloorDiv (a b : Value) : Option Value :=
  match a.numeric, b.numeric with
  | some p, some q =>
    if q = 0 then none
    else if (wholeOf a).isSome && (wholeOf b).isSome then some (.int ⌊p / q⌋)
    else some (.float ⌊p / q⌋)
  | _, _ => none

/-- The remainder of numbers, which is a whole one of whole ones. -/
def remainder (p q : ℚ) : Option ℤ → Option ℤ → Value
  | some m, some n => .int (m - n * ⌊p / q⌋)
  | _, _ => .float (p - q * ⌊p / q⌋)

/-- `left % right`, which on a text is its format. -/
def pyMod (a b : Value) : Option Value :=
  match a, a.numeric, b.numeric with
  | .str s, _, _ => py.format s b
  | _, some p, some q => if q = 0 then none else some (remainder p q (wholeOf a) (wholeOf b))
  | _, _, _ => none

/-- A power of numbers; a root of a negative one is complex. -/
def ratPow (power : ℚ → ℚ → ℚ) (p q : ℚ) : Option ℚ :=
  if q.den = 1 then if p = 0 ∧ q < 0 then none else some (p ^ q.num)
  else if p < 0 then none
  else if p = 0 then if q < 0 then none else some 0
  else some (power p q)

def MAX_POW_EXPONENT : ℚ := 1000

def MAX_STRING_MULTIPLY : ℤ := 100000

/-- `left ** right`, of an exponent that is not too large. -/
def pyPow (a b : Value) : Option Value :=
  match a.numeric, b.numeric with
  | some p, some q =>
    if MAX_POW_EXPONENT < q then none
    else match wholeOf a, wholeOf b with
    | some m, some n =>
      if 0 ≤ n then some (.int (m ^ n.toNat)) else (ratPow py.power p q).map .float
    | _, _ => (ratPow py.power p q).map .float
  | _, _ => none

def tooLong : Value → Value → Bool
  | .str _, b => (wholeOf b).any fun n => decide (MAX_STRING_MULTIPLY < n)
  | _, _ => false

/-- `_BIN_OPS`, with the guards of `_visit_BinOp`. -/
def pyBinOp : BinOp → Value → Value → Option Value
  | .add, a, b => pyArith .add a b
  | .sub, a, b => pyArith .sub a b
  | .mult, a, b => if tooLong a b || tooLong b a then none else pyArith .mul a b
  | .div, a, b => pyArith .div a b
  | .floorDiv, a, b => pyFloorDiv a b
  | .mod, a, b => pyMod py a b
  | .pow, a, b => pyPow py a b

def pyPos : Value → Option Value
  | .bool b => some (.int (if b then 1 else 0))
  | .int n => some (.int n)
  | .float q => some (.float q)
  | _ => none

/-- `_UNARY_OPS`. -/
def pyUnaryOp : UnaryOp → Value → Option Value
  | .not, a => some (.bool (!a.truthy))
  | .uSub, a => pyNeg a
  | .uAdd, a => pyPos a

mutual

/-- `a <= b`. -/
def pyLessEq : Value → Value → Option Bool
  | .str s, .str t => some (!decide (t < s))
  | .list as, .list bs => pyLessEqItems as bs
  | a, b => match a.numeric, b.numeric with
    | some p, some q => some (decide (p ≤ q))
    | _, _ => none

def pyLessEqItems : List Value → List Value → Option Bool
  | [], _ => some true
  | _ :: _, [] => some false
  | a :: as, b :: bs => if pyEq a b then pyLessEqItems as bs else pyLessEq a b

end

/-- `_COMPARE_OPS`. -/
def pyCompareOp : CmpOp → Value → Value → Option Bool
  | .eq, a, b => some (pyEq a b)
  | .notEq, a, b => some (!pyEq a b)
  | .lt, a, b => pyLess a b
  | .ltE, a, b => pyLessEq a b
  | .gt, a, b => pyLess b a
  | .gtE, a, b => pyLessEq b a

/-- `_visit_BoolOp` on the values of all the operands. -/
def pyBoolOp : BoolOp → List Value → Value
  | .and, [] => .bool true
  | .or, [] => .bool false
  | _, [v] => v
  | .and, v :: vs => if v.truthy then pyBoolOp .and vs else v
  | .or, v :: vs => if v.truthy then v else pyBoolOp .or vs

/-- `_visit_Compare` after its first operand. -/
def compareChain (visit : Expr → Option Value) : Value → List CmpOp → List Expr → Option Value
  | left, op :: ops, e :: es => do
    let right ← visit e
    if ← pyCompareOp op left right then compareChain visit right ops es else some (.bool false)
  | _, _, _ => some (.bool true)

abbrev Functions := String → Option (List Value → Option Value)

/-- `_Evaluator.visit`, of which at most so many may be open. -/
def visit (functions : Functions) (context : Dict) : ℕ → Expr → Option Value
  | 0, _ => none
  | _ + 1, .constant v => some v
  | _ + 1, .name id => context.lookup id
  | n + 1, .binOp left op right => do
    pyBinOp py op (← visit functions context n left) (← visit functions context n right)
  | n + 1, .unaryOp op operand => do pyUnaryOp op (← visit functions context n operand)
  | n + 1, .boolOp op values => (values.mapM (visit functions context n)).map (pyBoolOp op)
  | n + 1, .compare left ops comparators => do
    compareChain (visit functions context n) (← visit functions context n left) ops comparators
  | n + 1, .ifExp test body orelse => do
    if (← visit functions context n test).truthy then visit functions context n body
    else visit functions context n orelse
  | n + 1, .call func args => do (← functions func) (← args.mapM (visit functions context n))
  | n + 1, .list elts => (elts.mapM (visit functions context n)).map .list

end Evaluation

end RuleMind.Formula
