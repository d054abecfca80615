/-
  Formulas in the browser: `evaluateFormulaSafely` of `rule-engine/src/safe-formula.ts`, against
  `evaluate_formula` of the server.

  The parser evaluates what it reads, while it reads it, so it evaluates both branches of a
  conditional.  The engine's stack holds `n` calls of its methods within one another.
-/
import RuleMind.SafeFormula

namespace RuleMind.Formula

open Text (F64 digitsValue readDecimal)

/-! ### Values -/

inductive JsValue
  | null
  | bool (b : Bool)
  | num (x : F64)
  | str (s : String)
  | list (vs : List JsValue)
  | object (kvs : List (String × JsValue))

mutual

def toJs : Value → JsValue
  | .null => .null
  | .bool b => .bool b
  | .int n => .num (.finite n)
  | .float q => .num (.finite q)
  | .inf neg => .num (.infinite neg)
  | .str s => .str s
  | .list vs => .list (toJsItems vs)
  | .dict kvs => .object (toJsFields kvs)

def toJsItems : List Value → List JsValue
  | [] => []
  | v :: vs => toJs v :: toJsItems vs

def toJsFields : List (String × Value) → List (String × JsValue)
  | [] => []
  | (k, v) :: kvs => (k, toJs v) :: toJsFields kvs

end

namespace Js

/-! ### Numbers -/

def isNeg : F64 → Bool
  | .finite q => decide (q < 0)
  | .infinite neg => neg
  | .nan => false

def add : F64 → F64 → F64
  | .finite p, .finite q => .finite (p + q)
  | .infinite a, .infinite b => if a = b then .infinite a else .nan
  | .infinite a, .finite _ => .infinite a
  | .finite _, .infinite b => .infinite b
  | _, _ => .nan

def neg : F64 → F64
  | .finite q => .finite (-q)
  | .infinite a => .infinite (!a)
  | .nan => .nan

def mul : F64 → F64 → F64
  | .finite p, .finite q => .finite (p * q)
  | .nan, _ => .nan
  | _, .nan => .nan
  | a, b => if a = .finite 0 ∨ b = .finite 0 then .nan else .infinite (isNeg a != isNeg b)

def div : F64 → F64 → F64
  | .finite p, .finite q => .finite (p / q)
  | .finite _, .infinite _ => .finite 0
  | .infinite a, .finite q => .infinite (a != isNeg (.finite q))
  | _, _ => .nan

def floor : F64 → F64
  | .finite q => .finite ⌊q⌋
  | x => x

def trunc (q : ℚ) : ℤ := if 0 ≤ q then ⌊q⌋ else ⌈q⌉

/-- The remainder of a division by what is no zero. -/
def rem : F64 → F64 → F64
  | .finite p, .finite q => .finite (p - q * trunc (p / q))
  | .finite p, .infinite _ => .finite p
  | _, _ => .nan

def lt : F64 → F64 → Bool
  | .finite p, .finite q => decide (p < q)
  | .infinite a, .infinite b => a && !b
  | .infinite a, .finite _ => a
  | .finite _, .infinite b => !b
  | _, _ => false

/-- `x === y` on numbers. -/
def eq (x y : F64) : Bool := decide (x = y) && decide (x ≠ .nan)

def le (x y : F64) : Bool := lt x y || eq x y

def pow (power : ℚ → ℚ → ℚ) : F64 → F64 → F64
  | .finite p, .finite q =>
    if q.den = 1 then if p = 0 ∧ q < 0 then .infinite false else .finite (p ^ q.num)
    else if p < 0 then .nan
    else if p = 0 then if q < 0 then .infinite false else .finite 0
    else .finite (power p q)
  | .finite p, .infinite neg =>
    if |p| = 1 then .nan else if decide (|p| < 1) = neg then .infinite false else .finite 0
  | .infinite neg, .finite q =>
    if q = 0 then .finite 1
    else if q < 0 then .finite 0
    else .infinite (neg && decide (q.den = 1) && decide (q.num % 2 = 1))
  | .infinite _, .infinite neg => if neg then .finite 0 else .infinite false
  | .nan, .finite q => if q = 0 then .finite 1 else .nan
  | _, _ => .nan

end Js

/-- What belongs to the browser's language, and the functions that it has of itself:
    `FORMULA_BUILTINS`, and what every object inherits. -/
structure Browser where
  /-- `Number(text)`, unless it is blank or no number -/
  number : String → Option F64
  /-- a positive number to a power that is no whole number -/
  powerOf : ℚ → ℚ → ℚ
  builtins : String → Option (List JsValue → Option JsValue)

namespace Browser
variable (b : Browser)

/-! ### Operators -/

def truthy : JsValue → Bool
  | .null => false
  | .bool b => b
  | .num x => decide (x ≠ .finite 0)
  | .str s => s != ""
  | .list vs => !vs.isEmpty
  | .object _ => true

def numeric : JsValue → Option F64
  | .bool b => some (.finite (if b then 1 else 0))
  | .num x => some x
  | .str s => b.number s
  | _ => none

def typeOf : JsValue → String
  | .bool _ => "boolean"
  | .num _ => "number"
  | .str _ => "string"
  | _ => "object"

/-- `a === b` on values of one type; two lists or objects are never the same one. -/
def strictEq : JsValue → JsValue → Bool
  | .null, .null => true
  | .bool a, .bool b => a == b
  | .num x, .num y => Js.eq x y
  | .str s, .str t => s == t
  | _, _ => false

def looseEq (x y : JsValue) : Bool :=
  if typeOf x = typeOf y then strictEq x y
  else match b.numeric x, b.numeric y with
    | some p, some q => Js.eq p q
    | _, _ => false

def ordered (lt : F64 → F64 → Bool) (x y : JsValue) : Option Bool := do
  some (lt (← b.numeric x) (← b.numeric y))

def compareOne (x : JsValue) : CmpOp → JsValue → Option Bool
  | .eq, y => some (b.looseEq x y)
  | .notEq, y => some (!b.looseEq x y)
  | .lt, y => b.ordered Js.lt x y
  | .ltE, y => b.ordered Js.le x y
  | .gt, y => b.ordered (fun p q => Js.lt q p) x y
  | .gtE, y => b.ordered (fun p q => Js.le q p) x y

/-- `result && this.compareOne(left, op, right)`. -/
def andCompare (result : Bool) (x : JsValue) (op : CmpOp) (y : JsValue) : Option Bool :=
  if result then b.compareOne x op y else some false

def MAX_POW_EXPONENT : F64 := .finite 1000

def MAX_STRING_REPEAT : F64 := .finite 100000

/-- `text.repeat(Math.max(0, Math.trunc(count)))`, which an endless one is no text. -/
def repeated (s : String) : F64 → Option JsValue
  | .finite q => some (.str (String.join (List.replicate (Js.trunc q).toNat s)))
  | .infinite true => some (.str "")
  | _ => none

def onNumbers (f : F64 → F64 → F64) (x y : JsValue) : Option JsValue := do
  some (.num (f (← b.numeric x) (← b.numeric y)))

def byNumber (f : F64 → F64 → F64) (x y : JsValue) : Option JsValue := do
  let d ← b.numeric y
  if d = .finite 0 then none else some (.num (f (← b.numeric x) d))

/-- The operators of `additive`, `multiplicative` and `power`. -/
def binOp : BinOp → JsValue → JsValue → Option JsValue
  | .add, .str s, .str t => some (.str (s ++ t))
  | .add, x, y => b.onNumbers Js.add x y
  | .sub, x, y => b.onNumbers (fun p q => Js.add p (Js.neg q)) x y
  | .mult, .str s, y => do
    let n ← b.numeric y
    if Js.lt MAX_STRING_REPEAT n then none else repeated s n
  | .mult, x, .str s => do
    let n ← b.numeric x
    if Js.lt MAX_STRING_REPEAT n then none else repeated s n
  | .mult, x, y => b.onNumbers Js.mul x y
  | .div, x, y => b.byNumber Js.div x y
  | .floorDiv, x, y => b.byNumber (fun p d => Js.floor (Js.div p d)) x y
  | .mod, x, y => b.byNumber (fun p d => Js.rem (Js.add (Js.rem p d) d) d) x y
  | .pow, x, y => do
    let n ← b.numeric y
    if Js.lt MAX_POW_EXPONENT n then none else some (.num (Js.pow b.powerOf (← b.numeric x) n))

def unaryOp : UnaryOp → JsValue → Option JsValue
  | .not, x => some (.bool (!truthy x))
  | .uSub, x => (b.numeric x).map fun p => .num (Js.neg p)
  | .uAdd, x => (b.numeric x).map .num

end Browser

namespace Browser

/-! ### Tokens -/

def spanDigits (cs : List Char) : List Char × List Char :=
  (cs.takeWhile Char.isDigit, cs.dropWhile Char.isDigit)

/-- `/^[0-9]*\.?[0-9]+([eE][+-]?[0-9]+)?/`, of a text that it matches. -/
def scanNumber (cs : List Char) : List Char × List Char :=
  let whole := spanDigits cs
  let fraction := match whole.2 with
    | '.' :: cs => if startsDigit cs then ('.' :: (spanDigits cs).1, (spanDigits cs).2)
      else ([], whole.2)
    | cs => ([], cs)
  let exponent := exponentPart spanDigits fraction.2
  (whole.1 ++ fraction.1 ++ exponent.1, exponent.2)

/-- `/[A-Za-z_]/`. -/
def wordStart (c : Char) : Bool := c.isAlpha || c == '_'

/-- `/[A-Za-z0-9_]/`. -/
def wordChar (c : Char) : Bool := wordStart c || c.isDigit

/-- `tokenize`, in at most `n` steps. -/
def tokenize : ℕ → List Char → Option (List Token)
  | 0, _ => none
  | _ + 1, [] => some []
  | n + 1, c :: cs =>
    if isBlank c || isNewline c then tokenize n cs
    else if c = '\x22' ∨ c = '\x27' then
      match cs.dropWhile (· != c) with
      | _ :: rest => (tokenize n rest).map (.str (cs.takeWhile (· != c)) :: ·)
      | [] => none
    else if c.isDigit || (c == '.' && startsDigit cs) then
      (tokenize n (scanNumber (c :: cs)).2).map (.num (scanNumber (c :: cs)).1 :: ·)
    else if wordStart c then
      (tokenize n (cs.dropWhile wordChar)).map
        (.name (String.ofList (c :: cs.takeWhile wordChar)) :: ·)
    else (operator OPERATORS (c :: cs)).bind fun r => (tokenize n r.2).map (.op r.1 :: ·)

end Browser

/-! ### Parser -/

abbrev Reader (α : Type) := List Token → Option (α × List Token)

def eatName (word : String) : List Token → Option (List Token)
  | .name s :: ts => if s = word then some ts else none
  | _ => none

def eatOp (text : String) : List Token → Option (List Token)
  | .op s :: ts => if s = text then some ts else none
  | _ => none

def eatAny {α : Type} (text : α → String) (ops : List α) (ts : List Token) :
    Option (α × List Token) :=
  ops.findSome? fun op => (eatOp (text op) ts).map (op, ·)

namespace Browser

/-- A loop over the operands of a word, the last of which replaces the value unless it stays. -/
def whileName (word : String) (stays : JsValue → Bool) (operand : Reader JsValue) :
    ℕ → JsValue → Reader JsValue
  | 0, left, ts => some (left, ts)
  | n + 1, left, ts =>
    match eatName word ts with
    | some ts => do
      let r ← operand ts
      whileName word stays operand n (if stays left then left else r.1) r.2
    | none => some (left, ts)

def whileOp (b : Browser) (ops : List BinOp) (operand : Reader JsValue) :
    ℕ → JsValue → Reader JsValue
  | 0, left, ts => some (left, ts)
  | n + 1, left, ts =>
    match eatAny BinOp.text ops ts with
    | some (op, ts) => do
      let r ← operand ts
      whileOp b ops operand n (← b.binOp op left r.1) r.2
    | none => some (left, ts)

def COMPARISONS : List CmpOp := [.eq, .notEq, .ltE, .gtE, .lt, .gt]

/-- The loop of `comparison`; operands are compared as long as all before them hold. -/
def whileCompare (b : Browser) (operand : Reader JsValue) :
    ℕ → JsValue → Bool → Bool → Reader JsValue
  | 0, left, result, compared, ts => some (if compared then .bool result else left, ts)
  | n + 1, left, result, compared, ts =>
    match eatAny CmpOp.text COMPARISONS ts with
    | some (op, ts) => do
      let r ← operand ts
      whileCompare b operand n r.1 (← b.andCompare result left op r.1) true r.2
    | none => some (if compared then .bool result else left, ts)

def whileComma (close : String) (item : Reader JsValue) : ℕ → List JsValue → Reader (List JsValue)
  | 0, _, _ => none
  | n + 1, items, ts =>
    match eatOp "," ts with
    | some ts => do
      let r ← item ts
      whileComma close item n (items ++ [r.1]) r.2
    | none => (eatOp close ts).map (items, ·)

def itemsUpTo (close : String) (item : Reader JsValue) : Reader (List JsValue) := fun ts =>
  match eatOp close ts with
  | some ts => some ([], ts)
  | none => do
    let r ← item ts
    whileComma close item (r.2.length + 1) [r.1] r.2

section Parser
variable (b : Browser) (functions : String → Option (List JsValue → Option JsValue))
  (context : List (String × JsValue))

/-- `{ ...FORMULA_BUILTINS, ...functions }`. -/
def table (name : String) : Option (List JsValue → Option JsValue) :=
  (functions name).or (b.builtins name)

mutual

def ternary : ℕ → Reader JsValue
  | 0, _ => none
  | n + 1, ts => do
    let body ← orExpr n ts
    match eatName "if" body.2 with
    | some ts => do
      let cond ← orExpr n ts
      let ts ← eatName "else" cond.2
      let other ← ternary n ts
      some (if truthy cond.1 then body.1 else other.1, other.2)
    | none => some body

def orExpr : ℕ → Reader JsValue
  | 0, _ => none
  | n + 1, ts => do
    let left ← andExpr n ts
    whileName "or" truthy (andExpr n) left.2.length left.1 left.2

def andExpr : ℕ → Reader JsValue
  | 0, _ => none
  | n + 1, ts => do
    let left ← notExpr n ts
    whileName "and" (fun v => !truthy v) (notExpr n) left.2.length left.1 left.2

def notExpr : ℕ → Reader JsValue
  | 0, _ => none
  | n + 1, ts =>
    match eatName "not" ts with
    | some ts => do
      let operand ← notExpr n ts
      some (.bool (!truthy operand.1), operand.2)
    | none => comparison n ts

def comparison : ℕ → Reader JsValue
  | 0, _ => none
  | n + 1, ts => do
    let left ← additive n ts
    whileCompare b (additive n) left.2.length left.1 true false left.2

def additive : ℕ → Reader JsValue
  | 0, _ => none
  | n + 1, ts => do
    let left ← multiplicative n ts
    whileOp b [.add, .sub] (multiplicative n) left.2.length left.1 left.2

def multiplicative : ℕ → Reader JsValue
  | 0, _ => none
  | n + 1, ts => do
    let left ← unary n ts
    whileOp b [.mult, .floorDiv, .div, .mod] (unary n) left.2.length left.1 left.2

def unary : ℕ → Reader JsValue
  | 0, _ => none
  | n + 1, ts =>
    match eatOp "-" ts, eatOp "+" ts with
    | some ts, _ => do
      let operand ← unary n ts
      some (← b.unaryOp .uSub operand.1, operand.2)
    | none, some ts => do
      let operand ← unary n ts
      some (← b.unaryOp .uAdd operand.1, operand.2)
    | none, none => power n ts

def power : ℕ → Reader JsValue
  | 0, _ => none
  | n + 1, ts => do
    let base ← atom n ts
    match eatOp "**" base.2 with
    | some ts => do
      let exponent ← unary n ts
      some (← b.binOp .pow base.1 exponent.1, exponent.2)
    | none => some base

def atom : ℕ → Reader JsValue
  | 0, _ => none
  | n + 1, ts =>
    match ts with
    | .num lit :: ts => some (.num (.finite ((readDecimal lit).getD 0)), ts)
    | .str lit :: ts => some (.str (String.ofList lit), ts)
    | .op o :: ts =>
      if o = "[" then do
        let items ← itemsUpTo "]" (ternary n) ts
        some (.list items.1, items.2)
      else if o = "(" then do
        let inner ← ternary n ts
        some (inner.1, ← eatOp ")" inner.2)
      else none
    | .name s :: ts =>
      if s = "True" then some (.bool true, ts)
      else if s = "False" then some (.bool false, ts)
      else if s = "None" then some (.null, ts)
      else match eatOp "(" ts with
        | some ts => do
          let f ← table b functions s
          let args ← itemsUpTo ")" (ternary n) ts
          some (← f args.1, args.2)
        | none => do some (← context.lookup s, ts)
    | [] => none

end

def MAX_EXPRESSION_LENGTH : ℕ := 4096

/-- `formula.length`. -/
def utf16Length (text : List Char) : ℕ := (text.map fun c => if c.toNat < 65536 then 1 else 2).sum

def evaluateFormulaSafely (n : ℕ) (text : List Char) : Option JsValue :=
  if MAX_EXPRESSION_LENGTH < utf16Length text then none
  else do
    let ts ← tokenize (text.length + 1) text
    let r ← ternary b functions context n ts
    if r.2 = [] then some r.1 else none

end Parser

end Browser

open Browser

/-! ### Reading the same tokens -/

/-- A number that has no underscore, and a digit after its point. -/
def plainNumber (lit : List Char) : Bool :=
  !lit.contains '_' && match lit.dropWhile Char.isDigit with
    | '.' :: cs => startsDigit cs
    | _ => true

/-- What the browser reads as the server does: plain numbers, no text, no comma at an end. -/
def Browser.style : Style := ⟨fun lit => plainNumber lit = true, fun _ => False, False⟩

variable {cs : List Char} {ts : List Token}

theorem moreDigits_span (h : '_' ∉ (moreDigits cs).1) : moreDigits cs = spanDigits cs := by
  induction cs using moreDigits.induct with
  | case1 c cs hc ih => simp [moreDigits, hc] at h
  | case2 c cs hc => simp [moreDigits, spanDigits, hc, show Char.isDigit '_' = false by decide]
  | case3 c cs hne hc ih => simp_all [moreDigits.eq_2, spanDigits]
  | case4 c cs hne hc =>
    rw [moreDigits.eq_2 _ _ hne, if_neg hc]
    simp [spanDigits, hc]
  | case5 => rfl

theorem digitPart_span (h : '_' ∉ (digitPart cs).1) : digitPart cs = spanDigits cs := by
  unfold digitPart at h ⊢
  split
  · next hs =>
    rw [if_pos hs] at h
    exact moreDigits_span h
  · next hs =>
    cases cs with
    | nil => rfl
    | cons c cs =>
      have hc : ¬c.isDigit = true := hs
      simp [spanDigits, hc]

theorem exponentPart_span (h : '_' ∉ (exponentPart digitPart cs).1) :
    exponentPart digitPart cs = exponentPart spanDigits cs := by
  unfold exponentPart at h ⊢
  split
  · split
    · next hc =>
      simp only [if_pos hc] at h
      rw [digitPart_span fun hmem => h (by simp [hmem])]
    · rfl
  · rfl

theorem exponentPart_head (digits : List Char → List Char × List Char) (cs : List Char) :
    startsDigit (exponentPart digits cs).1 = false := by
  unfold exponentPart
  split
  · split
    · next hc =>
      obtain ⟨rfl | rfl, -⟩ := hc
      · exact (by decide : Char.isDigit 'e' = false)
      · exact (by decide : Char.isDigit 'E' = false)
    · rfl
  · rfl

theorem scanNumber_eq {r : List Char × List Char} (h : number cs = some r)
    (hplain : plainNumber r.1 = true) : scanNumber cs = r := by
  unfold number at h
  simp only at h
  split at h
  · cases h
  cases h
  simp only [plainNumber, Bool.and_eq_true, Bool.not_eq_true', List.contains_eq_mem,
    decide_eq_false_iff_not, List.mem_append, not_or] at hplain
  obtain ⟨⟨⟨hwhole, hfraction⟩, hexponent⟩, hpoint⟩ := hplain
  have hdigits : ∀ c ∈ (spanDigits cs).1, c.isDigit = true := fun c hc => List.mem_takeWhile_imp hc
  rw [digitPart_span hwhole] at hfraction hexponent hpoint ⊢
  rw [List.append_assoc, List.dropWhile_append_of_pos hdigits] at hpoint
  unfold scanNumber
  rw [exponentPart_span hexponent]
  -- a point is taken only with a digit after it
  cases hrest : (spanDigits cs).2 with
  | nil => simp [fractionPart, hrest]
  | cons c rest =>
    by_cases hc : c = '.'
    · subst hc
      rw [hrest] at hfraction hpoint
      have hspan : digitPart rest = spanDigits rest :=
        digitPart_span fun hmem => hfraction (List.mem_cons_of_mem _ hmem)
      have hdigit : startsDigit rest = true := by
        cases hd : startsDigit rest with
        | true => rfl
        | false =>
          have hnone : digitPart rest = ([], rest) := by rw [digitPart, if_neg (by simp [hd])]
          simp only [fractionPart, hnone, List.singleton_append, List.dropWhile_cons,
            show Char.isDigit '.' = false by decide] at hpoint
          exact absurd hpoint (by simp [exponentPart_head])
      simp [fractionPart, hrest, hspan, hdigit]
    · simp [fractionPart, hrest, hc]

theorem nameStart_ascii {py : Python} {c : Char} (h : c.toNat < 128) :
    py.nameStart c = wordStart c := by
  rw [Python.nameStart, wordStart, decide_eq_false (by omega), Bool.false_and, Bool.or_false]

theorem nameChar_ascii {py : Python} {c : Char} (h : c.toNat < 128) :
    py.nameChar c = wordChar c := by
  rw [Python.nameChar, wordChar, nameStart_ascii h, decide_eq_false (by omega), Bool.false_and,
    Bool.or_false]

theorem while_congr {p q : Char → Bool} (h : ∀ c ∈ cs, p c = q c) :
    cs.takeWhile p = cs.takeWhile q ∧ cs.dropWhile p = cs.dropWhile q := by
  induction cs with
  | nil => exact ⟨rfl, rfl⟩
  | cons c cs ih => simp_all [List.takeWhile_cons, List.dropWhile_cons]

theorem tokenize_layout {n : ℕ} (hn : cs.length < n)
    (h : (cs.all fun c => isBlank c || isNewline c) = true) : tokenize n cs = some [] := by
  induction n generalizing cs with
  | zero => omega
  | succ n ih =>
    cases cs with
    | nil => rfl
    | cons c cs =>
      rw [List.all_cons, Bool.and_eq_true] at h
      rw [tokenize, if_pos h.1]
      exact ih (Nat.lt_of_succ_lt_succ hn) h.2

theorem tokenize_lex {py : Python} {n depth : ℕ} {place : Place}
    (h : lex py n depth place cs = some ts) (hn : cs.length < n)
    (hascii : ∀ c ∈ cs, c.toNat < 128) (hplain : ∀ t ∈ ts, Browser.style.allows t) :
    tokenize n cs = some ts := by
  induction n generalizing depth place cs ts with
  | zero => cases h
  | succ n ih =>
    cases cs with
    | nil => exact h
    | cons c cs =>
      have hlt : c.toNat < 128 := hascii c List.mem_cons_self
      have hstart : py.nameStart c = wordStart c := nameStart_ascii hlt
      have hcs : ∀ c ∈ cs, c.toNat < 128 := fun c hc => hascii c (List.mem_cons_of_mem _ hc)
      have hrest : ∀ {depth place rest t}, rest.length < (c :: cs).length → rest <:+ c :: cs →
          ((lex py n depth place rest).map (t :: ·) = some ts) →
          Browser.style.allows t ∧ (tokenize n rest).map (t :: ·) = some ts := by
        intro depth place rest t hlen hsuffix hlex
        obtain ⟨ts', hts', rfl⟩ := Option.map_eq_some_iff.1 hlex
        simp only [List.length_cons] at hn hlen
        rw [ih hts' (by omega) (fun c hc => hascii c (hsuffix.mem hc)) fun t ht =>
          hplain t (List.mem_cons_of_mem _ ht)]
        exact ⟨hplain t List.mem_cons_self, rfl⟩
      have hlen : cs.length < n := Nat.lt_of_succ_lt_succ hn
      rw [lex] at h
      rw [tokenize]
      split at h
      · grind -ring -linarith
      next hblank =>
      split at h
      · next hnewline =>
        rw [if_pos (by rw [hnewline, Bool.or_true])]
        grind -ring -linarith [tokenize_layout]
      next hnewline =>
      rw [if_neg (by simp [hblank, hnewline])]
      split at h
      · cases h
      split at h
      · next hdigit =>
        obtain ⟨r, hr, hts⟩ := Option.bind_eq_some_iff.1 h
        obtain ⟨hnum, hts⟩ := hrest (number_length hdigit hr) ⟨r.1, number_append hr⟩ hts
        have hquote : ¬(c = '\x22' ∨ c = '\x27') := by
          rintro (rfl | rfl) <;> exact absurd hdigit (by simp)
        rw [if_neg hquote, if_pos hdigit, scanNumber_eq hr hnum]
        exact hts
      next hdigit =>
      split at h
      · split at h
        · cases h
        · obtain ⟨r, hr, hts⟩ := Option.bind_eq_some_iff.1 h
          obtain ⟨hstr, -⟩ := hrest (Nat.lt_succ_of_le (quoted_suffix hr).length_le)
            ((quoted_suffix hr).trans (List.suffix_cons _ _)) hts
          exact hstr.elim
      next hquote =>
      rw [if_neg hquote, if_neg hdigit]
      split at h
      · next hname =>
        obtain ⟨htake, hdrop⟩ := while_congr fun c hc => @nameChar_ascii py c (hcs c hc)
        obtain ⟨-, hts⟩ := hrest (Nat.lt_succ_of_le (List.dropWhile_suffix _).length_le)
          ((List.dropWhile_suffix _).trans (List.suffix_cons _ _)) h
        grind -ring -linarith
      · next hname =>
        obtain ⟨r, hr, hts⟩ := Option.bind_eq_some_iff.1 h
        obtain ⟨-, hts⟩ := hrest (operator_length hr)
          ((operator_drop hr).2 ▸ List.drop_suffix _ _) hts
        rw [if_neg (hstart ▸ hname), hr]
        exact hts

/-! ### Taking tokens -/

theorem eatName_self (word : String) (ts : List Token) :
    eatName word (.name word :: ts) = some ts := by
  rw [eatName, if_pos rfl]

theorem eatName_none {word : String} (h : ts.head? ≠ some (.name word)) :
    eatName word ts = none := by
  unfold eatName
  grind

theorem eatOp_self (text : String) (ts : List Token) : eatOp text (.op text :: ts) = some ts := by
  rw [eatOp, if_pos rfl]

theorem eatOp_none {text : String} (h : ts.head? ≠ some (.op text)) : eatOp text ts = none := by
  unfold eatOp
  grind

theorem eatAny_self {α : Type} {text : α → String} (hinj : Function.Injective text) {op : α}
    {ops : List α} (hop : op ∈ ops) (ts : List Token) :
    eatAny text ops (.op (text op) :: ts) = some (op, ts) := by
  induction ops with
  | nil => cases hop
  | cons op' ops ih =>
    by_cases heq : op' = op
    · subst heq
      simp [eatAny, eatOp_self]
    · have hnone : eatOp (text op') (.op (text op) :: ts) = none :=
        eatOp_none fun h => heq (hinj (by simpa using h.symm))
      simp_all [Ne.symm, eatAny]

theorem eatAny_none {α : Type} {text : α → String} {ops : List α}
    (h : ∀ op ∈ ops, ts.head? ≠ some (.op (text op))) : eatAny text ops ts = none := by
  refine List.findSome?_eq_none_iff.2 fun op hop => ?_
  rw [eatOp_none (h op hop)]
  rfl

theorem binText_injective : Function.Injective BinOp.text := by
  intro op op' h
  cases op <;> cases op' <;> first | rfl | exact absurd h (by decide)

theorem cmpText_injective : Function.Injective CmpOp.text := by
  intro op op' h
  cases op <;> cases op' <;> first | rfl | exact absurd h (by decide)

theorem toJs_literal {lit : List Char} (h : plainNumber lit = true) :
    toJs (literalValue lit) = .num (.finite ((readDecimal lit).getD 0)) := by
  have hplain : '_' ∉ lit := by
    rw [plainNumber, Bool.and_eq_true] at h
    simpa using h.1
  have hfilter : lit.filter (· != '_') = lit :=
    List.filter_eq_self.2 fun c hc => by
      rw [bne_iff_ne]
      rintro rfl
      exact hplain hc
  unfold literalValue
  simp only [hfilter]
  split
  · next hall =>
    have hdigits : ∀ c ∈ lit, c.isDigit = true := by
      intro c hc
      have := List.all_eq_true.1 hall c hc
      rw [Bool.or_eq_true, beq_iff_eq] at this
      exact this.resolve_right fun h => hplain (h ▸ hc)
    by_cases hne : lit = []
    · subst hne
      simp [toJs, readDecimal, digitsValue]
    · rw [toJs, Text.readDecimal_digits hne hdigits]
      rfl
  · rfl

/-! ### The value of a tree -/

section Trees
variable (b : Browser) (functions : String → Option (List JsValue → Option JsValue))
  (context : List (String × JsValue))

/-- Whether an operand of `and` or `or` stays the value. -/
def stays : BoolOp → JsValue → Bool
  | .or, v => truthy v
  | .and, v => !truthy v

mutual

def evalTree : Expr → Option JsValue
  | .constant v => some (toJs v)
  | .name id => context.lookup id
  | .binOp left op right => do b.binOp op (← evalTree left) (← evalTree right)
  | .unaryOp op operand => do b.unaryOp op (← evalTree operand)
  | .boolOp op values => evalBools op values
  | .compare left ops comparators => do
    let state ← evalCompares (← evalTree left) true ops comparators
    some (.bool state.2)
  | .ifExp test body orelse => do
    let body ← evalTree body
    let cond ← evalTree test
    let other ← evalTree orelse
    some (if truthy cond then body else other)
  | .call func args => do (← b.table functions func) (← evalItems args)
  | .list elts => do some (.list (← evalItems elts))

def evalItems : List Expr → Option (List JsValue)
  | [] => some []
  | e :: es => do
    let v ← evalTree e
    some (v :: (← evalItems es))

def evalBools (op : BoolOp) : List Expr → Option JsValue
  | [] => none
  | e :: es => do evalMoreBools op (← evalTree e) es

def evalMoreBools (op : BoolOp) (left : JsValue) : List Expr → Option JsValue
  | [] => some left
  | e :: es => do
    let v ← evalTree e
    evalMoreBools op (if stays op left then left else v) es

/-- The last operand of a chain of comparisons, and whether all of them hold. -/
def evalCompares (left : JsValue) (result : Bool) : List CmpOp → List Expr → Option (JsValue × Bool)
  | op :: ops, e :: es => do
    let v ← evalTree e
    evalCompares v (← b.andCompare result left op v) ops es
  | _, _ => some (left, result)

end

/-! ### The parser evaluates -/

def boolOperand (n : ℕ) : BoolOp → Reader JsValue
  | .or => andExpr b functions context n
  | .and => notExpr b functions context n

def boolReader (n : ℕ) : BoolOp → Reader JsValue
  | .or => orExpr b functions context n
  | .and => andExpr b functions context n

def binOperand (n : ℕ) : Level → Reader JsValue
  | .sum => multiplicative b functions context n
  | .term => unary b functions context n

def binReader (n : ℕ) : Level → Reader JsValue
  | .sum => additive b functions context n
  | .term => multiplicative b functions context n

def binLoop : Level → List BinOp
  | .sum => [.add, .sub]
  | .term => [.mult, .floorDiv, .div, .mod]

def itemsOf : Expr → Option (List JsValue)
  | .list elts => evalItems b functions context elts
  | _ => none

/-- What the parser makes of the tokens that a rule reads, or a loop of it goes on with. -/
def Evaluates (n : ℕ) : Goal → List Token → Expr → List Token → Prop
  | .expression, ts, e, rest =>
    ternary b functions context n ts = (evalTree b functions context e).bind fun v => some (v, rest)
  | .bools op, ts, e, rest =>
    boolReader b functions context n op ts =
      (evalTree b functions context e).bind fun v => some (v, rest)
  | .moreBools op es, ts, e, rest => es ≠ [] → ∀ m, ts.length ≤ m →
    ((evalBools b functions context op es).bind fun left =>
      whileName op.word (stays op) (boolOperand b functions context n op) m left ts) =
      (evalTree b functions context e).bind fun v => some (v, rest)
  | .inversion, ts, e, rest =>
    notExpr b functions context n ts = (evalTree b functions context e).bind fun v => some (v, rest)
  | .comparison, ts, e, rest =>
    comparison b functions context n ts =
      (evalTree b functions context e).bind fun v => some (v, rest)
  | .moreCompares left ops es, ts, e, rest => ops.length = es.length → ∀ m, ts.length ≤ m →
    (((evalTree b functions context left).bind fun v =>
      evalCompares b functions context v true ops es).bind fun state =>
        whileCompare b (additive b functions context n) m state.1 state.2 (!ops.isEmpty) ts) =
      (evalTree b functions context e).bind fun v => some (v, rest)
  | .binary lvl, ts, e, rest =>
    binReader b functions context n lvl ts =
      (evalTree b functions context e).bind fun v => some (v, rest)
  | .moreBinary lvl left, ts, e, rest => ∀ m, ts.length ≤ m →
    ((evalTree b functions context left).bind fun v =>
      whileOp b (binLoop lvl) (binOperand b functions context n lvl) m v ts) =
      (evalTree b functions context e).bind fun v => some (v, rest)
  | .factor, ts, e, rest =>
    unary b functions context n ts = (evalTree b functions context e).bind fun v => some (v, rest)
  | .power, ts, e, rest =>
    power b functions context n ts = (evalTree b functions context e).bind fun v => some (v, rest)
  | .atom, ts, e, rest =>
    atom b functions context n ts = (evalTree b functions context e).bind fun v => some (v, rest)
  | .items close, ts, e, rest => close ≠ "," →
    itemsUpTo close (ternary b functions context n) ts =
      (itemsOf b functions context e).bind fun v => some (v, rest)
  | .moreItems close es, ts, e, rest => close ≠ "," → ∀ m, ts.length < m →
    ((evalItems b functions context es).bind fun vs =>
      whileComma close (ternary b functions context n) m vs ts) =
      (itemsOf b functions context e).bind fun v => some (v, rest)

variable {b functions context}

theorem evalItems_append (es : List Expr) (e : Expr) :
    evalItems b functions context (es ++ [e]) = (evalItems b functions context es).bind fun vs =>
      (evalTree b functions context e).bind fun v => some (vs ++ [v]) := by
  induction es with
  | nil => cases h : evalTree b functions context e <;> simp [evalItems, h]
  | cons e' es ih =>
    simp only [List.cons_append, evalItems, ih]
    cases evalTree b functions context e' <;> cases evalItems b functions context es <;>
      cases evalTree b functions context e <;> rfl

theorem evalMoreBools_append (op : BoolOp) (left : JsValue) (es : List Expr) (e : Expr) :
    evalMoreBools b functions context op left (es ++ [e]) =
      (evalMoreBools b functions context op left es).bind fun left =>
        (evalTree b functions context e).bind fun v =>
          some (if stays op left then left else v) := by
  induction es generalizing left with
  | nil => cases h : evalTree b functions context e <;> simp [evalMoreBools, h]
  | cons e' es ih =>
    simp only [List.cons_append, evalMoreBools, Option.bind_eq_bind, Option.bind_assoc, ih]

variable {es : List Expr} {ts rest : List Token} {n : ℕ} {e : Expr} {operand : Reader JsValue}

theorem evalBools_append (op : BoolOp) (hne : es ≠ []) (e : Expr) :
    evalBools b functions context op (es ++ [e]) =
      (evalBools b functions context op es).bind fun left =>
        (evalTree b functions context e).bind fun v =>
          some (if stays op left then left else v) := by
  cases es with
  | nil => exact absurd rfl hne
  | cons e' es =>
    simp only [List.cons_append, evalBools, Option.bind_eq_bind, Option.bind_assoc,
      evalMoreBools_append]

theorem evalTree_boolExpr (op : BoolOp) (es : List Expr) :
    evalTree b functions context (boolExpr op es) = evalBools b functions context op es := by
  rcases es with _ | ⟨e, _ | ⟨e', es⟩⟩
  · rfl
  · cases h : evalTree b functions context e <;> simp [boolExpr, evalBools, evalMoreBools, h]
  · simp only [boolExpr, evalTree]

variable {ops : List CmpOp} {lvl : Level} {s : String}

theorem evalCompares_append (left : JsValue) (result : Bool)
    (hlen : ops.length = es.length) (op : CmpOp) (e : Expr) :
    evalCompares b functions context left result (ops ++ [op]) (es ++ [e]) =
      (evalCompares b functions context left result ops es).bind fun state =>
        (evalTree b functions context e).bind fun v =>
          (b.andCompare state.2 state.1 op v).bind fun result => some (v, result) := by
  induction ops generalizing left result es with
  | nil =>
    obtain rfl := List.eq_nil_of_length_eq_zero hlen.symm
    simp only [List.nil_append, evalCompares, Option.bind_eq_bind, Option.bind_some]
  | cons op' ops ih =>
    cases es with
    | nil => cases hlen
    | cons e' es =>
      simp only [List.cons_append, evalCompares, Option.bind_eq_bind, Option.bind_assoc,
        ih _ _ (Nat.succ.inj hlen)]

theorem boolOperand_evaluates {op : BoolOp}
    (h : Evaluates b functions context n op.operand ts e rest) :
    boolOperand b functions context n op ts =
      (evalTree b functions context e).bind fun v => some (v, rest) := by
  cases op <;> exact h

theorem binOperand_evaluates (h : Evaluates b functions context n lvl.operand ts e rest) :
    binOperand b functions context n lvl ts =
      (evalTree b functions context e).bind fun v => some (v, rest) := by
  cases lvl <;> exact h

theorem whileName_done {word : String} {keeps : JsValue → Bool}
    (h : ts.head? ≠ some (.name word)) (m : ℕ) (left : JsValue) :
    whileName word keeps operand m left ts = some (left, ts) := by
  cases m with
  | zero => rfl
  | succ m => rw [whileName, eatName_none h]

theorem whileOp_done {ops : List BinOp}
    (h : ∀ op ∈ ops, ts.head? ≠ some (.op op.text)) (m : ℕ) (left : JsValue) :
    whileOp b ops operand m left ts = some (left, ts) := by
  cases m with
  | zero => rfl
  | succ m => rw [whileOp, eatAny_none h]

theorem whileCompare_done (h : ∀ op : CmpOp, ts.head? ≠ some (.op op.text)) (m : ℕ) (left : JsValue)
    (result compared : Bool) :
    whileCompare b operand m left result compared ts =
      some (if compared then .bool result else left, ts) := by
  cases m with
  | zero => rfl
  | succ m => rw [whileCompare, eatAny_none fun op _ => h op]

theorem mem_binLoop {op : BinOp} : op ∈ binLoop lvl ↔ op ∈ lvl.ops := by
  cases lvl <;> cases op <;> decide

theorem mem_comparisons (op : CmpOp) : op ∈ COMPARISONS := by
  cases op <;> decide

theorem keyword_cases {v : Value} (h : keywordValue s = some v) :
    s = "True" ∧ v = .bool true ∨ s = "False" ∧ v = .bool false ∨ s = "None" ∧ v = .null := by
  unfold keywordValue at h
  split at h <;> simp_all

theorem evalTree_compareExpr {left : Expr} (hlen : ops.length = es.length) :
    evalTree b functions context (compareExpr left ops es) =
      ((evalTree b functions context left).bind fun v =>
        evalCompares b functions context v true ops es).bind fun state =>
          some (if !ops.isEmpty then .bool state.2 else state.1) := by
  cases ops with
  | nil =>
    obtain rfl := List.eq_nil_of_length_eq_zero hlen.symm
    cases h : evalTree b functions context left <;> simp [compareExpr, evalCompares, h]
  | cons op ops =>
    simp only [compareExpr, evalTree, Option.bind_eq_bind, Option.bind_assoc]
    rfl

theorem not_keyword (h : s ∉ KEYWORDS) : s ≠ "True" ∧ s ≠ "False" ∧ s ≠ "None" := by
  refine ⟨?_, ?_, ?_⟩ <;>
  · rintro rfl
    exact h (by decide)

theorem parser_evaluates {goal : Goal} (h : Reads Browser.style n goal ts e rest) :
    Evaluates b functions context n goal ts e rest := by
  induction h with
  | ifExp _ _ _ ih₁ ih₂ ih₃ =>
    show ternary _ _ _ _ _ = _
    simp only [Evaluates, boolReader] at ih₁ ih₂ ih₃
    simp only [ternary, ih₁, ih₂, ih₃, eatName_self, evalTree, Option.bind_eq_bind,
      Option.bind_assoc, Option.bind_some]
  | disjunction _ hif ih =>
    show ternary _ _ _ _ _ = _
    simp only [Evaluates, boolReader] at ih
    simp only [ternary, ih, eatName_none hif, Option.bind_eq_bind, Option.bind_assoc,
      Option.bind_some]
  | @bools _ op _ e _ e' rest _ _ ih₁ ih₂ =>
    have hoperand := boolOperand_evaluates ih₁
    have hloop := ih₂ (List.cons_ne_nil _ _) _ (Nat.le_refl _)
    rw [← evalTree_boolExpr op [e]] at hloop
    show _ = (evalTree b functions context e').bind fun v => some (v, rest)
    rw [← hloop]
    cases op with
    | or =>
      show (boolOperand b functions context _ .or _).bind _ = _
      rw [hoperand, Option.bind_assoc]
      rfl
    | and =>
      show (boolOperand b functions context _ .and _).bind _ = _
      rw [hoperand, Option.bind_assoc]
      rfl
  | nextBool hreads _ ih₁ ih₂ =>
    intro hne m hm
    obtain ⟨m, rfl⟩ := Nat.exists_eq_succ_of_ne_zero (by rintro rfl; simp at hm : m ≠ 0)
    have hloop := ih₂ (by simp) m (hreads.length_le.trans (Nat.le_of_succ_le_succ hm))
    rw [← hloop]
    simp only [whileName, eatName_self, boolOperand_evaluates ih₁, evalBools_append _ hne,
      Option.bind_eq_bind, Option.bind_assoc, Option.bind_some]
  | lastBool hop =>
    intro _ m _
    simp only [whileName_done hop, evalTree_boolExpr]
  | not _ ih =>
    show notExpr _ _ _ _ _ = _
    simp only [Evaluates] at ih
    simp only [notExpr, eatName_self, ih, evalTree, unaryOp, Option.bind_eq_bind,
      Option.bind_assoc, Option.bind_some]
  | noNot hnot _ ih =>
    show notExpr _ _ _ _ _ = _
    rw [notExpr, eatName_none hnot]
    exact ih
  | comparison _ _ ih₁ ih₂ =>
    show comparison _ _ _ _ _ = _
    simp only [Evaluates, binReader] at ih₁
    have hloop := ih₂ rfl _ (Nat.le_refl _)
    simp_all [comparison, evalCompares, Option.bind_assoc]
  | @nextCompare _ _ ops _ op _ _ _ _ _ hreads _ ih₁ ih₂ =>
    intro hlen m hm
    have hcompared : (!(ops ++ [op]).isEmpty) = true := by simp
    obtain ⟨m, rfl⟩ := Nat.exists_eq_succ_of_ne_zero (by rintro rfl; simp at hm : m ≠ 0)
    have hloop := ih₂ (by simp [hlen]) m (hreads.length_le.trans (Nat.le_of_succ_le_succ hm))
    simp only [Evaluates, binReader] at ih₁
    rw [← hloop]
    simp only [whileCompare, eatAny_self cmpText_injective (mem_comparisons _), ih₁,
      evalCompares_append _ _ hlen, Option.bind_eq_bind, Option.bind_assoc, Option.bind_some,
      hcompared]
  | lastCompare hop =>
    intro hlen m _
    grind -ring -linarith [whileCompare_done, evalTree_compareExpr]
  | @binary _ lvl _ _ _ e' rest _ _ ih₁ ih₂ =>
    have hoperand := binOperand_evaluates ih₁
    have hloop := ih₂ _ (Nat.le_refl _)
    show _ = (evalTree b functions context e').bind fun v => some (v, rest)
    rw [← hloop]
    cases lvl with
    | sum =>
      show (binOperand b functions context _ .sum _).bind _ = _
      rw [hoperand, Option.bind_assoc]
      rfl
    | term =>
      show (binOperand b functions context _ .term _).bind _ = _
      rw [hoperand, Option.bind_assoc]
      rfl
  | nextBinary hop hreads _ ih₁ ih₂ =>
    intro m hm
    obtain ⟨m, rfl⟩ := Nat.exists_eq_succ_of_ne_zero (by rintro rfl; simp at hm : m ≠ 0)
    have hloop := ih₂ m (hreads.length_le.trans (Nat.le_of_succ_le_succ hm))
    rw [← hloop]
    simp only [whileOp, eatAny_self binText_injective (mem_binLoop.2 hop),
      binOperand_evaluates ih₁, evalTree, Option.bind_eq_bind, Option.bind_assoc,
      Option.bind_some]
  | lastBinary hop =>
    intro m _
    simp only [whileOp_done fun op h => hop op (mem_binLoop.1 h)]
  | minus _ ih =>
    show unary _ _ _ _ _ = _
    simp only [Evaluates] at ih
    simp only [unary, eatOp_self, ih, evalTree, Option.bind_eq_bind, Option.bind_assoc,
      Option.bind_some]
  | @plus _ ts _ _ _ ih =>
    show unary _ _ _ _ _ = _
    simp only [Evaluates] at ih
    have hminus : eatOp "-" (.op "+" :: ts) = none := eatOp_none (by simp)
    simp only [unary, eatOp_self, hminus, ih, evalTree, Option.bind_eq_bind, Option.bind_assoc,
      Option.bind_some]
  | noSign hminus hplus _ ih =>
    show unary _ _ _ _ _ = _
    rw [unary, eatOp_none hminus, eatOp_none hplus]
    exact ih
  | power _ _ ih₁ ih₂ =>
    show power _ _ _ _ _ = _
    simp only [Evaluates] at ih₁ ih₂
    simp only [power, ih₁, ih₂, eatOp_self, evalTree, Option.bind_eq_bind, Option.bind_assoc,
      Option.bind_some]
  | noPower _ hop ih =>
    show power _ _ _ _ _ = _
    simp only [Evaluates] at ih
    simp only [power, ih, eatOp_none hop, Option.bind_eq_bind, Option.bind_assoc, Option.bind_some]
  | num hlit =>
    show atom _ _ _ _ _ = _
    rw [atom, evalTree, toJs_literal hlit]
    rfl
  | str hlit => exact hlit.elim
  | keyword hv =>
    show atom _ _ _ _ _ = _
    obtain ⟨rfl, rfl⟩ | ⟨rfl, rfl⟩ | ⟨rfl, rfl⟩ := keyword_cases hv <;> rfl
  | name hs hcall =>
    show atom _ _ _ _ _ = _
    obtain ⟨htrue, hfalse, hnone⟩ := not_keyword hs
    simp_all [atom, eatOp_none, evalTree]
  | call hs _ ih =>
    show atom _ _ _ _ _ = _
    obtain ⟨htrue, hfalse, hnone⟩ := not_keyword hs
    simp only [atom, if_neg htrue, if_neg hfalse, if_neg hnone, eatOp_self,
      ih (by decide), itemsOf, evalTree, Option.bind_eq_bind, Option.bind_assoc, Option.bind_some]
  | group _ ih =>
    show atom _ _ _ _ _ = _
    simp only [Evaluates] at ih
    simp only [atom, ih, eatOp_self, Option.bind_eq_bind, Option.bind_assoc, Option.bind_some]
    rfl
  | list _ ih =>
    show atom _ _ _ _ _ = _
    simp only [atom, ih (by decide), itemsOf, evalTree, Option.bind_eq_bind, Option.bind_assoc,
      Option.bind_some]
    rfl
  | noItems =>
    intro _
    rw [itemsUpTo, eatOp_self]
    rfl
  | items hne _ _ ih₁ ih₂ =>
    intro hclose
    simp only [Evaluates] at ih₁
    have hloop := ih₂ hclose _ (Nat.lt_succ_self _)
    rw [← hloop]
    simp only [itemsUpTo, eatOp_none hne, ih₁, evalItems, Option.bind_eq_bind, Option.bind_assoc,
      Option.bind_some]
  | nextItem _ hreads _ ih₁ ih₂ =>
    intro hclose m hm
    obtain ⟨m, rfl⟩ := Nat.exists_eq_succ_of_ne_zero (by rintro rfl; simp at hm : m ≠ 0)
    simp only [Evaluates] at ih₁
    have hloop := ih₂ hclose m (Nat.lt_of_le_of_lt hreads.length_le (Nat.lt_of_succ_lt_succ hm))
    rw [← hloop]
    simp only [whileComma, eatOp_self, ih₁, evalItems_append, Option.bind_eq_bind,
      Option.bind_assoc, Option.bind_some]
  | lastItem =>
    intro hclose m hm
    obtain ⟨m, rfl⟩ := Nat.exists_eq_succ_of_ne_zero (by rintro rfl; simp at hm : m ≠ 0)
    grind -ring -linarith [whileComma, eatOp_none, eatOp_self, itemsOf]
  | lastComma hc => exact hc.elim
end Trees

end RuleMind.Formula
