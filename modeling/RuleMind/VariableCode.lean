/-
  Variable functions and what `app/compiler.py` makes of them (`_compile_expr`,
  `compile_variable`): Python functions of assignments and a return, and instruction
  lists for a register machine.

  A function is its syntax tree; Python's own parser is left out.  It is called as
  `app/sandbox.py` calls it, with the payload of its source and the variables computed
  so far.  Numbers are exact, and an exception is `none`.
-/
import RuleMind.Compare

namespace RuleMind.VarCode

/-! ### Syntax -/

inductive Op
  | add
  | sub
  | mul
  | div
  deriving DecidableEq, Repr

inductive Cast
  | int
  | float
  | str
  | bool
  deriving DecidableEq, Repr

def Cast.name : Cast → String
  | int => "int"
  | float => "float"
  | str => "str"
  | bool => "bool"

/-- `other` is every form the compiler refuses. -/
inductive Expr
  | const (v : Value)
  | name (x : String)
  | neg (e : Expr)
  | subscript (e index : Expr)
  | get (e : Expr) (args : List Expr)
  | pick (largest : Bool) (args : List Expr)
  | cast (type : Cast) (e : Expr)
  | binop (op : Op) (l r : Expr)
  | other (reason : String)

inductive Stmt
  | assign (target : String) (value : Expr)
  | ret (value : Option Expr)
  | other (reason : String)

structure Param where
  name : String
  default : Option Value

structure FunctionDef where
  params : List Param
  body : List Stmt

/-! ### Python -/

def wholeOf : Value → Option ℤ
  | .bool b => some (if b then 1 else 0)
  | .int n => some n
  | _ => none

def Op.onInt : Op → ℤ → ℤ → Option Value
  | add, m, n => some (.int (m + n))
  | sub, m, n => some (.int (m - n))
  | mul, m, n => some (.int (m * n))
  | div, m, n => if n = 0 then none else some (.float (m / n))

def Op.onRat : Op → ℚ → ℚ → Option Value
  | add, p, q => some (.float (p + q))
  | sub, p, q => some (.float (p - q))
  | mul, p, q => some (.float (p * q))
  | div, p, q => if q = 0 then none else some (.float (p / q))

/-- `value * n` on a text and on a list. -/
def repeated (n : ℤ) : Value → Option Value
  | .str s => some (.str (String.join (List.replicate n.toNat s)))
  | .list vs => some (.list (List.replicate n.toNat vs).flatten)
  | _ => none

/-- The operators on values that are not both numbers. -/
def Op.onOther : Op → Value → Value → Option Value
  | add, .str s, .str t => some (.str (s ++ t))
  | add, .list vs, .list ws => some (.list (vs ++ ws))
  | mul, a, b =>
    match wholeOf b, wholeOf a with
    | some n, _ => repeated n a
    | _, some n => repeated n b
    | _, _ => none
  | _, _, _ => none

def pyArith (op : Op) (a b : Value) : Option Value :=
  match wholeOf a, wholeOf b with
  | some m, some n => op.onInt m n
  | _, _ => match a.numeric, b.numeric with
    | some p, some q => op.onRat p q
    | _, _ => op.onOther a b

def pyNeg : Value → Option Value
  | .bool b => some (.int (if b then -1 else 0))
  | .int n => some (.int (-n))
  | .float q => some (.float (-q))
  | _ => none

/-- `items[i]`, counted from the end where `i` is negative. -/
def itemAt {α : Type} (items : List α) (i : ℤ) : Option α :=
  let at' := if i < 0 then items.length + i else i
  if at' < 0 then none else items[at'.toNat]?

/-- `value[index]`. -/
def pyIndex : Value → Value → Option Value
  | .dict kvs, .str key => kvs.lookup key
  | .list vs, index => (wholeOf index).bind (itemAt vs)
  | .str s, index => (wholeOf index).bind fun i =>
    (itemAt s.toList i).map fun c => .str (String.ofList [c])
  | _, _ => none

/-- `value.get(...)`, which only objects have; a list or an object is no key. -/
def pyGetMethod : Value → List Value → Option Value
  | .dict kvs, key :: rest =>
    match key, rest with
    | .list _, _ => none
    | .dict _, _ => none
    | .str k, [] => some ((kvs.lookup k).getD .null)
    | .str k, [default] => some ((kvs.lookup k).getD default)
    | _, [] => some .null
    | _, [default] => some default
    | _, _ => none
  | _, _ => none

mutual

/-- `a < b`. -/
def pyLess : Value → Value → Option Bool
  | .str s, .str t => some (decide (s < t))
  | .list as, .list bs => pyLessItems as bs
  | a, b => match a.numeric, b.numeric with
    | some p, some q => some (decide (p < q))
    | _, _ => none

def pyLessItems : List Value → List Value → Option Bool
  | [], bs => some (!bs.isEmpty)
  | _ :: _, [] => some false
  | a :: as, b :: bs => if pyEq a b then pyLessItems as bs else pyLess a b

end

/-- `min` and `max` go on with the first of the best values. -/
def pyPickFrom (largest : Bool) : Value → List Value → Option Value
  | best, [] => some best
  | best, v :: vs => do
    let better ← if largest then pyLess best v else pyLess v best
    pyPickFrom largest (if better then v else best) vs

/-- `min(...)` and `max(...)` of several values. -/
def pyPick (largest : Bool) : List Value → Option Value
  | v :: w :: vs => pyPickFrom largest v (w :: vs)
  | _ => none

section Python
variable (py : PyText)

/-- The number a text stands for; an infinity is no exact number. -/
def exactNumber (s : String) : Option ℚ :=
  (py.numeral s).bind fun cs =>
    (Text.readDecimal (Text.sign cs).2).map fun q => if (Text.sign cs).1 then -q else q

def pyCast : Cast → Value → Option Value
  | .int, v => (pyIntOf py v).toOption.map .int
  | .float, .str s => (exactNumber py s).map .float
  | .float, v => v.numeric.map .float
  | .str, v => some (.str (py.str v))
  | .bool, v => some (.bool v.truthy)

mutual

/-- An expression, where the names `locals` are no functions of the interpreter. -/
def eval (locals : List String) (env : Dict) : Expr → Option Value
  | .const v => some v
  | .name x => env.lookup x
  | .neg e => (eval locals env e).bind pyNeg
  | .subscript e index => do
    let v ← eval locals env e
    let i ← eval locals env index
    pyIndex v i
  | .get e args => do
    let v ← eval locals env e
    let vs ← evalArgs locals env args
    pyGetMethod v vs
  | .pick largest args => do
    let vs ← evalArgs locals env args
    if (if largest then "max" else "min") ∈ locals then none else pyPick largest vs
  | .cast type e => do
    let v ← eval locals env e
    if type.name ∈ locals then none else pyCast py type v
  | .binop op l r => do
    let a ← eval locals env l
    let b ← eval locals env r
    pyArith op a b
  | .other _ => none

def evalArgs (locals : List String) (env : Dict) : List Expr → Option (List Value)
  | [] => some []
  | e :: es => do
    let v ← eval locals env e
    let vs ← evalArgs locals env es
    return v :: vs

end

/-- The body; the newest assignment of a name comes first in `env`. -/
def evalBody (locals : List String) (env : Dict) : List Stmt → Option Value
  | [] => some .null
  | .assign target value :: body => do
    let v ← eval py locals env value
    evalBody locals ((target, v) :: env) body
  | .ret none :: _ => some .null
  | .ret (some value) :: _ => eval py locals env value
  | .other _ :: _ => none

def FunctionDef.locals (f : FunctionDef) : List String :=
  f.params.map Param.name ++ f.body.filterMap fun stmt => match stmt with
    | .assign target _ => some target
    | _ => none

/-- The arguments in their order, then the defaults. -/
def bindParams : List Param → List Value → Option Dict
  | [], [] => some []
  | [], _ :: _ => none
  | p :: ps, [] => do
    let v ← p.default
    let rest ← bindParams ps []
    return (p.name, v) :: rest
  | p :: ps, v :: vs => do
    let rest ← bindParams ps vs
    return (p.name, v) :: rest

/-- The arguments of `_execute_in_process`: a third one where there are three parameters. -/
def FunctionDef.args (f : FunctionDef) (payload earlier : Dict) : Option Dict :=
  if 3 ≤ f.params.length then
    bindParams f.params [.dict payload, .dict earlier, .dict [("connectors", .dict [])]]
  else bindParams f.params [.dict payload, .dict earlier]

def FunctionDef.call (f : FunctionDef) (payload earlier : Dict) : Option Value :=
  (f.args payload earlier).bind fun env => evalBody py f.locals env f.body

end Python

/-- The payload of a source: its entry in the whole payload, or the whole one where the
    caller sends no other. -/
def sourcePayload (sourceId : String) (payload : Dict) : Dict :=
  match payload.lookup sourceId with
  | some (.dict kvs) => kvs
  | _ => payload

/-! ### The compiler -/

/-- `_new_register`. -/
def reg (n : ℕ) : String := "r" ++ n.repr

/-- Where a value is: under the name of a parameter, or in a register. -/
inductive Token
  | param (x : String)
  | reg (n : ℕ)
  deriving DecidableEq, Repr

def Token.text : Token → String
  | param x => x
  | reg n => VarCode.reg n

/-- The fields the compiler writes; the second operand of a negation, `rightValue`, is under
    a key of its own. -/
inductive Instr
  | literal (target : String) (value : Value)
  | get (target source key : String) (default : Option String)
  | negate (target left : String)
  | arith (op : Op) (target left right : String)
  | pick (largest : Bool) (target : String) (args : List String)
  | cast (type : Cast) (target source : String)

/-- The instructions before the return, and the operand of the return. -/
structure Code where
  instrs : List Instr
  result : String

abbrev Scope := List (String × Token)

abbrev Compiled := Except String (Token × List Instr × ℕ)

/-- A new register for the value of the last instruction. -/
def emit (code : List Instr) (n : ℕ) (instr : String → Instr) : Compiled :=
  .ok (.reg (n + 1), code ++ [instr (reg (n + 1))], n + 1)

mutual

/-- `_compile_expr` with `n` registers in use. -/
def compileExpr (env : Scope) : Expr → ℕ → Compiled
  | .const v, n => emit [] n fun t => .literal t v
  | .name x, n => match env.lookup x with
    | some token => .ok (token, [], n)
    | none => .error ("unsupported:name:" ++ x)
  | .neg e, n => do
    let (source, code, n) ← compileExpr env e n
    emit code n fun t => .negate t source.text
  | .subscript e index, n => do
    let (source, code, n) ← compileExpr env e n
    let (key, code', n) ← compileExpr env index n
    emit (code ++ code') n fun t => .get t source.text key.text none
  | .get e [], n => do
    let (source, code, n) ← compileExpr env e n
    let (key, code', n) ← emit [] n fun t => .literal t (.str "")
    let (default, code'', n) ← emit [] n fun t => .literal t (.int 0)
    emit (code ++ code' ++ code'') n fun t => .get t source.text key.text (some default.text)
  | .get e [key], n => do
    let (source, code, n) ← compileExpr env e n
    let (key, code', n) ← compileExpr env key n
    let (default, code'', n) ← emit [] n fun t => .literal t (.int 0)
    emit (code ++ code' ++ code'') n fun t => .get t source.text key.text (some default.text)
  | .get e (key :: default :: _), n => do
    let (source, code, n) ← compileExpr env e n
    let (key, code', n) ← compileExpr env key n
    let (default, code'', n) ← compileExpr env default n
    emit (code ++ code' ++ code'') n fun t => .get t source.text key.text (some default.text)
  | .pick largest args, n => do
    let (tokens, code, n) ← compileArgs env args n
    if args.length < 2 then .error ("unsupported:call:" ++ if largest then "max" else "min")
    else emit code n fun t => .pick largest t (tokens.map Token.text)
  | .cast type e, n => do
    let (source, code, n) ← compileExpr env e n
    emit code n fun t => .cast type t source.text
  | .binop op l r, n => do
    let (left, code, n) ← compileExpr env l n
    let (right, code', n) ← compileExpr env r n
    emit (code ++ code') n fun t => .arith op t left.text right.text
  | .other reason, _ => .error ("unsupported:" ++ reason)

def compileArgs (env : Scope) : List Expr → ℕ → Except String (List Token × List Instr × ℕ)
  | [], n => .ok ([], [], n)
  | e :: es, n => do
    let (token, code, n) ← compileExpr env e n
    let (tokens, code', n) ← compileArgs env es n
    return (token :: tokens, code ++ code', n)

end

/-- The statements of `compile_variable`. -/
def compileBody (env : Scope) : List Stmt → ℕ → Except String Code
  | [], _ => .error "unsupported:missing_return"
  | .assign target value :: body, n => do
    let (token, code, n) ← compileExpr env value n
    let rest ← compileBody ((target, token) :: env) body n
    return ⟨code ++ rest.instrs, rest.result⟩
  | .ret value :: _, n => do
    let (token, code, _) ← compileExpr env (value.getD (.const .null)) n
    return ⟨code, token.text⟩
  | .other reason :: _, _ => .error ("unsupported:stmt:" ++ reason)

/-- `compile_variable` on the function found in the code. -/
def FunctionDef.compile (f : FunctionDef) : Except String Code :=
  compileBody (f.params.map fun p => (p.name, .param p.name)) f.body 0

/-! ### Registers -/

theorem toList_reg (n : ℕ) : (reg n).toList = 'r' :: Nat.toDigits 10 n := by
  simp [reg, Nat.repr]

theorem reg_inj {m n : ℕ} (h : reg m = reg n) : m = n := by
  have hl : Nat.toDigits 10 m = Nat.toDigits 10 n := by
    have := congrArg String.toList h
    rw [toList_reg, toList_reg] at this
    exact (List.cons.inj this).2
  rw [← Text.digitsValue_toDigits m, hl, Text.digitsValue_toDigits]

mutual

def Expr.size : Expr → ℕ
  | .const _ => 1
  | .name _ => 0
  | .neg e => e.size + 1
  | .subscript e index => e.size + index.size + 1
  | .get e [] => e.size + 3
  | .get e [key] => e.size + key.size + 2
  | .get e (key :: default :: _) => e.size + key.size + default.size + 1
  | .pick _ args => sizeArgs args + 1
  | .cast _ e => e.size + 1
  | .binop _ l r => l.size + r.size + 1
  | .other _ => 0

def sizeArgs : List Expr → ℕ
  | [] => 0
  | e :: es => e.size + sizeArgs es

end

theorem emit_ok {code : List Instr} {n : ℕ} {instr : String → Instr} {token : Token}
    {code' : List Instr} {n' : ℕ} (h : emit code n instr = .ok (token, code', n')) :
    token = .reg (n + 1) ∧ code' = code ++ [instr (reg (n + 1))] ∧ n' = n + 1 := by
  cases h
  exact ⟨rfl, rfl, rfl⟩

section
variable {env : Scope} {n : ℕ} {token : Token} {code : List Instr} {n' : ℕ}

/-! What the compiler emits for each form. -/

theorem compile_name {x : String} (h : compileExpr env (.name x) n = .ok (token, code, n')) :
    env.lookup x = some token ∧ code = [] ∧ n' = n := by
  rw [compileExpr] at h
  grind

variable {e : Expr}

theorem compile_neg (h : compileExpr env (.neg e) n = .ok (token, code, n')) :
    ∃ t c m, compileExpr env e n = .ok (t, c, m) ∧ token = .reg (m + 1) ∧
      code = c ++ [Instr.negate (reg (m + 1)) t.text] ∧ n' = m + 1 := by
  obtain ⟨⟨t, c, m⟩, h₁, h⟩ := bind_eq_ok.1 h
  exact ⟨t, c, m, h₁, emit_ok h⟩

theorem compile_subscript {index : Expr}
    (h : compileExpr env (.subscript e index) n = .ok (token, code, n')) :
    ∃ t₁ c₁ n₁ t₂ c₂ n₂, compileExpr env e n = .ok (t₁, c₁, n₁) ∧
      compileExpr env index n₁ = .ok (t₂, c₂, n₂) ∧ token = .reg (n₂ + 1) ∧
      code = c₁ ++ c₂ ++ [Instr.get (reg (n₂ + 1)) t₁.text t₂.text none] ∧ n' = n₂ + 1 := by
  obtain ⟨⟨t₁, c₁, n₁⟩, h₁, h⟩ := bind_eq_ok.1 h
  obtain ⟨⟨t₂, c₂, n₂⟩, h₂, h⟩ := bind_eq_ok.1 h
  exact ⟨t₁, c₁, n₁, t₂, c₂, n₂, h₁, h₂, emit_ok h⟩

theorem compile_get_nil (h : compileExpr env (.get e []) n = .ok (token, code, n')) :
    ∃ t c m, compileExpr env e n = .ok (t, c, m) ∧ n' = m + 3 := by
  obtain ⟨⟨t, c, m⟩, h₁, h⟩ := bind_eq_ok.1 h
  obtain ⟨⟨_, _, _⟩, h₂, h⟩ := bind_eq_ok.1 h
  obtain ⟨⟨_, _, _⟩, h₃, h⟩ := bind_eq_ok.1 h
  obtain ⟨rfl, rfl, rfl⟩ := emit_ok h₂
  obtain ⟨rfl, rfl, rfl⟩ := emit_ok h₃
  exact ⟨t, c, m, h₁, (emit_ok h).2.2⟩

theorem compile_get_one {key : Expr}
    (h : compileExpr env (.get e [key]) n = .ok (token, code, n')) :
    ∃ t₁ c₁ n₁ t₂ c₂ n₂, compileExpr env e n = .ok (t₁, c₁, n₁) ∧
      compileExpr env key n₁ = .ok (t₂, c₂, n₂) ∧ token = .reg (n₂ + 2) ∧
      code = c₁ ++ c₂ ++ [Instr.literal (reg (n₂ + 1)) (.int 0)] ++
        [Instr.get (reg (n₂ + 2)) t₁.text t₂.text (some (reg (n₂ + 1)))] ∧ n' = n₂ + 2 := by
  obtain ⟨⟨t₁, c₁, n₁⟩, h₁, h⟩ := bind_eq_ok.1 h
  obtain ⟨⟨t₂, c₂, n₂⟩, h₂, h⟩ := bind_eq_ok.1 h
  obtain ⟨⟨_, _, _⟩, h₃, h⟩ := bind_eq_ok.1 h
  obtain ⟨rfl, rfl, rfl⟩ := emit_ok h₃
  exact ⟨t₁, c₁, n₁, t₂, c₂, n₂, h₁, h₂, emit_ok h⟩

theorem compile_get_two {key default : Expr} {more : List Expr}
    (h : compileExpr env (.get e (key :: default :: more)) n = .ok (token, code, n')) :
    ∃ t₁ c₁ n₁ t₂ c₂ n₂ t₃ c₃ n₃, compileExpr env e n = .ok (t₁, c₁, n₁) ∧
      compileExpr env key n₁ = .ok (t₂, c₂, n₂) ∧
      compileExpr env default n₂ = .ok (t₃, c₃, n₃) ∧ token = .reg (n₃ + 1) ∧
      code = c₁ ++ c₂ ++ c₃ ++
        [Instr.get (reg (n₃ + 1)) t₁.text t₂.text (some t₃.text)] ∧ n' = n₃ + 1 := by
  obtain ⟨⟨t₁, c₁, n₁⟩, h₁, h⟩ := bind_eq_ok.1 h
  obtain ⟨⟨t₂, c₂, n₂⟩, h₂, h⟩ := bind_eq_ok.1 h
  obtain ⟨⟨t₃, c₃, n₃⟩, h₃, h⟩ := bind_eq_ok.1 h
  exact ⟨t₁, c₁, n₁, t₂, c₂, n₂, t₃, c₃, n₃, h₁, h₂, h₃, emit_ok h⟩

theorem compile_pick {largest : Bool} {args : List Expr}
    (h : compileExpr env (.pick largest args) n = .ok (token, code, n')) :
    ∃ ts c m, compileArgs env args n = .ok (ts, c, m) ∧ 2 ≤ args.length ∧
      token = .reg (m + 1) ∧
      code = c ++ [Instr.pick largest (reg (m + 1)) (ts.map Token.text)] ∧ n' = m + 1 := by
  grind [compileExpr, bind_eq_ok, emit_ok]

theorem compile_cast {type : Cast} (h : compileExpr env (.cast type e) n = .ok (token, code, n')) :
    ∃ t c m, compileExpr env e n = .ok (t, c, m) ∧ token = .reg (m + 1) ∧
      code = c ++ [Instr.cast type (reg (m + 1)) t.text] ∧ n' = m + 1 := by
  obtain ⟨⟨t, c, m⟩, h₁, h⟩ := bind_eq_ok.1 h
  exact ⟨t, c, m, h₁, emit_ok h⟩

theorem compile_binop {op : Op} {l r : Expr}
    (h : compileExpr env (.binop op l r) n = .ok (token, code, n')) :
    ∃ t₁ c₁ n₁ t₂ c₂ n₂, compileExpr env l n = .ok (t₁, c₁, n₁) ∧
      compileExpr env r n₁ = .ok (t₂, c₂, n₂) ∧ token = .reg (n₂ + 1) ∧
      code = c₁ ++ c₂ ++ [Instr.arith op (reg (n₂ + 1)) t₁.text t₂.text] ∧ n' = n₂ + 1 := by
  obtain ⟨⟨t₁, c₁, n₁⟩, h₁, h⟩ := bind_eq_ok.1 h
  obtain ⟨⟨t₂, c₂, n₂⟩, h₂, h⟩ := bind_eq_ok.1 h
  exact ⟨t₁, c₁, n₁, t₂, c₂, n₂, h₁, h₂, emit_ok h⟩

theorem compileArgs_cons {es : List Expr} {tokens : List Token}
    (h : compileArgs env (e :: es) n = .ok (tokens, code, n')) :
    ∃ t₁ c₁ n₁ ts c₂, compileExpr env e n = .ok (t₁, c₁, n₁) ∧
      compileArgs env es n₁ = .ok (ts, c₂, n') ∧ tokens = t₁ :: ts ∧ code = c₁ ++ c₂ := by
  obtain ⟨⟨t₁, c₁, n₁⟩, h₁, h⟩ := bind_eq_ok.1 h
  obtain ⟨⟨ts, c₂, n₂⟩, h₂, h⟩ := bind_eq_ok.1 h
  cases h
  exact ⟨t₁, c₁, n₁, ts, c₂, h₁, h₂, rfl, rfl⟩

end

mutual

theorem compileExpr_size {env : Scope} (e : Expr) {n : ℕ} {token : Token} {code : List Instr}
    {n' : ℕ} (h : compileExpr env e n = .ok (token, code, n')) : n' = n + e.size := by
  match e with
  | .const v => exact (emit_ok h).2.2
  | .name x => exact (compile_name h).2.2
  | .neg e =>
    obtain ⟨_, _, m, he, -, -, rfl⟩ := compile_neg h
    rw [compileExpr_size e he, Expr.size, Nat.add_assoc]
  | .subscript e index =>
    obtain ⟨_, _, n₁, _, _, n₂, he, hi, -, -, rfl⟩ := compile_subscript h
    rw [compileExpr_size index hi, compileExpr_size e he, Expr.size]
    omega
  | .get e [] =>
    obtain ⟨_, _, m, he, rfl⟩ := compile_get_nil h
    rw [compileExpr_size e he, Expr.size, Nat.add_assoc]
  | .get e [key] =>
    obtain ⟨_, _, n₁, _, _, n₂, he, hk, -, -, rfl⟩ := compile_get_one h
    rw [compileExpr_size key hk, compileExpr_size e he, Expr.size]
    omega
  | .get e (key :: default :: _) =>
    obtain ⟨_, _, n₁, _, _, n₂, _, _, n₃, he, hk, hd, -, -, rfl⟩ := compile_get_two h
    rw [compileExpr_size default hd, compileExpr_size key hk, compileExpr_size e he, Expr.size]
    omega
  | .pick largest args =>
    obtain ⟨_, _, m, ha, -, -, -, rfl⟩ := compile_pick h
    rw [compileArgs_size args ha, Expr.size, Nat.add_assoc]
  | .cast type e =>
    obtain ⟨_, _, m, he, -, -, rfl⟩ := compile_cast h
    rw [compileExpr_size e he, Expr.size, Nat.add_assoc]
  | .binop op l r =>
    obtain ⟨_, _, n₁, _, _, n₂, hl, hr, -, -, rfl⟩ := compile_binop h
    rw [compileExpr_size r hr, compileExpr_size l hl, Expr.size]
    omega
  | .other _ => cases h

theorem compileArgs_size {env : Scope} (es : List Expr) {n : ℕ} {tokens : List Token}
    {code : List Instr} {n' : ℕ} (h : compileArgs env es n = .ok (tokens, code, n')) :
    n' = n + sizeArgs es := by
  match es with
  | [] => cases h; rfl
  | e :: es =>
    obtain ⟨_, _, n₁, _, _, he, hes, -, -⟩ := compileArgs_cons h
    rw [compileArgs_size es hes, compileExpr_size e he, sizeArgs, Nat.add_assoc]

end

end RuleMind.VarCode
