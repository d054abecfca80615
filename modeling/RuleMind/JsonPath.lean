/-
  Paths and expressions over a context: `app/jsonpath.py`.

  `resolve_jsonpath` scans a path character by character and reads each key off the value it
  stands on: off an object as its entry, off anything else as a Python attribute.
-/
import RuleMind.Value
import RuleMind.Lib.Raises

namespace RuleMind.JsonPath

/-- A JSON value, its scalars left open. -/
inductive Data (σ : Type)
  | scalar (s : σ)
  | list (vs : List (Data σ))
  | dict (kvs : List (String × Data σ))

/-- What a key can be read off: data, or an object of the interpreter that is no JSON value (a
method, a class, a tuple). -/
inductive Thing (σ ω : Type)
  | data (v : Data σ)
  | object (o : ω)

/-- What the resolver takes from Python: `None`, `getattr` and `int` of a text. -/
structure Interpreter (σ ω : Type) where
  null : σ
  getattr : Thing σ ω → String → Option (Thing σ ω)
  int : List Char → Option ℤ
  int_empty : int [] = none

variable {σ ω : Type} (py : Interpreter σ ω)

def Interpreter.none : Data σ := .scalar py.null

/-- `_resolve_attr` -/
def resolveAttr (value : Thing σ ω) (key : String) : Thing σ ω :=
  match value with
  | .data (.dict kvs) => .data ((kvs.lookup key).getD py.none)
  | _ => (py.getattr value key).getD (.data py.none)

/-- `current[index]`, a negative index counted from the end. -/
def itemAt {α : Type} (vs : List α) (n : ℤ) : Option α :=
  let index := if n < 0 then vs.length + n else n
  if index < 0 then none else vs[index.toNat]?

/-! ### The scan -/

structure Scan (σ ω : Type) where
  current : Thing σ ω
  token : List Char
  indexMode : Bool
  buffer : List Char

/-- The token, if there is one, is read off the current value. -/
def flush (current : Thing σ ω) (token : List Char) : Thing σ ω :=
  if token = [] then current else resolveAttr py current (String.ofList token)

/-- What a closing bracket reads; `none` where the function returns `None`. -/
def readIndex (current : Thing σ ω) (buffer : List Char) : Option (Thing σ ω) :=
  match current with
  | .data (.list vs) => ((py.int buffer).bind (itemAt vs)).map .data
  | _ => none

/-- The body of the loop over `expression`. -/
def scanChar (s : Scan σ ω) (char : Char) : Option (Scan σ ω) :=
  if char = '.' ∧ s.indexMode = false then
    some ⟨flush py s.current s.token, [], false, s.buffer⟩
  else if char = '[' then some ⟨flush py s.current s.token, [], true, s.buffer⟩
  else if char = ']' then
    (readIndex py s.current s.buffer).map fun current => ⟨current, s.token, false, []⟩
  else if s.indexMode then some { s with buffer := s.buffer ++ [char] }
  else some { s with token := s.token ++ [char] }

/-- The end of the loop: an unterminated bracket gives `None`. -/
def finish (s : Scan σ ω) : Option (Thing σ ω) :=
  if s.indexMode then none else some (flush py s.current s.token)

def scan (s : Scan σ ω) (expression : List Char) : Option (Thing σ ω) :=
  (expression.foldlM (scanChar py) s).bind (finish py)

/-- `resolve_jsonpath` -/
def resolveJsonpath (path : List Char) (context : Data σ) : Thing σ ω :=
  match path with
  | '$' :: '.' :: expression =>
    (scan py ⟨.data context, [], false, []⟩ expression).getD (.data py.none)
  | _ => .data py.none

/-! ### What a path spells -/

/-- A step of a path: a key, or the text between two brackets. -/
inductive Segment
  | key (k : List Char)
  | index (text : List Char)
  deriving DecidableEq

def keySegment (token : List Char) : List Segment := if token = [] then [] else [.key token]

mutual
/-- The steps that a text spells behind the `token` already read; `none` where a bracket has no
partner. -/
def spelled (token : List Char) : List Char → Option (List Segment)
  | [] => some (keySegment token)
  | c :: cs =>
    if c = '.' then (spelled [] cs).map (keySegment token ++ ·)
    else if c = '[' then (spelledIndex [] cs).map (keySegment token ++ ·)
    else if c = ']' then none
    else spelled (token ++ [c]) cs

/-- The same inside a bracket. -/
def spelledIndex (text : List Char) : List Char → Option (List Segment)
  | [] => none
  | c :: cs =>
    if c = '[' then spelledIndex text cs
    else if c = ']' then (spelled [] cs).map (.index text :: ·)
    else spelledIndex (text ++ [c]) cs
end

/-- The steps a path spells from the root. -/
def position : List Char → Option (List Segment)
  | '$' :: '.' :: expression => spelled [] expression
  | _ => none

/-- The value that lies at a position inside a value. -/
def valueAt : Data σ → List Segment → Option (Data σ)
  | v, [] => some v
  | .dict kvs, .key k :: rest => (kvs.lookup (String.ofList k)).bind (valueAt · rest)
  | .list vs, .index text :: rest => ((py.int text).bind (itemAt vs)).bind (valueAt · rest)
  | _, _ => none

/-! ### The scan walks the steps -/

def readStep (current : Thing σ ω) : Segment → Option (Thing σ ω)
  | .key k => some (resolveAttr py current (String.ofList k))
  | .index text => readIndex py current text

def walk (current : Thing σ ω) (segments : List Segment) : Option (Thing σ ω) :=
  segments.foldlM (readStep py) current

@[simp] theorem walk_nil (t : Thing σ ω) : walk py t [] = some t := rfl

@[simp] theorem walk_cons (t : Thing σ ω) (s : Segment) (rest : List Segment) :
    walk py t (s :: rest) = (readStep py t s).bind (walk py · rest) := rfl

theorem walk_keySegment (t : Thing σ ω) (token : List Char) (rest : List Segment) :
    walk py t (keySegment token ++ rest) = walk py (flush py t token) rest := by
  unfold keySegment flush
  split <;> simp [readStep]

theorem scan_nil (s : Scan σ ω) : scan py s [] = finish py s := rfl

theorem scan_cons (s : Scan σ ω) (c : Char) (cs : List Char) :
    scan py s (c :: cs) = (scanChar py s c).bind (scan py · cs) := by
  simp [scan, List.foldlM_cons, Option.bind_assoc]

theorem readIndex_empty (t : Thing σ ω) : readIndex py t [] = none := by
  unfold readIndex
  split <;> simp [py.int_empty]

/-- Outside a bracket nothing is buffered, inside one no token is open. -/
theorem scan_eq (cs : List Char) : ∀ (t : Thing σ ω) (text : List Char),
    scan py ⟨t, text, false, []⟩ cs = (spelled text cs).bind (walk py t) ∧
    scan py ⟨t, [], true, text⟩ cs = (spelledIndex text cs).bind (walk py t) := by
  induction cs with
  | nil =>
    intro t text
    have h := walk_keySegment py t text []
    simp_all [scan_nil, finish, spelled, spelledIndex]
  | cons c cs ih =>
    intro t text
    simp only [scan_cons, scanChar, spelled, spelledIndex]
    constructor
    · by_cases hdot : c = '.'
      · simp [hdot, (ih _ []).1, Option.bind_map, walk_keySegment]
      by_cases hopen : c = '['
      · simp [hopen, (ih _ []).2, Option.bind_map, walk_keySegment]
      by_cases hclose : c = ']'
      · simp [hclose, readIndex_empty]
      · simp [hdot, hopen, hclose, (ih t _).1]
    · by_cases hopen : c = '['
      · simp [hopen, flush, (ih t text).2]
      by_cases hclose : c = ']'
      · cases h : readIndex py t text <;>
          simp [hclose, h, readStep, Option.bind_map, Function.comp_def, (ih _ []).1]
      · simp [hopen, hclose, (ih t _).2]

theorem resolve_eq (path : List Char) (context : Data σ) : resolveJsonpath py path context =
    ((position path).bind (walk py (.data context))).getD (.data py.none) := by
  unfold resolveJsonpath position
  split
  · rw [(scan_eq py _ _ _).1]
  · rfl

/-! ### Where the steps leave the data -/

/-- Along the steps, a key that is not read off an object starts a chain of Python attributes; the
chain comes to nothing. -/
def Confined : Data σ → List Segment → Prop
  | _, [] => True
  | .dict kvs, .key k :: rest => Confined ((kvs.lookup (String.ofList k)).getD py.none) rest
  | .list vs, .index text :: rest => ∀ v, (py.int text).bind (itemAt vs) = some v → Confined v rest
  | v, .key k :: rest =>
    (walk py (resolveAttr py (.data v) (String.ofList k)) rest).getD (.data py.none) = .data py.none
  | _, .index _ :: _ => True

theorem valueAt_none (rest : List Segment) : (valueAt py py.none rest).getD py.none = py.none := by
  cases rest <;> simp [valueAt, Interpreter.none]

/-- From data, the walk gives the value at the position or `None` where it stays confined. -/
theorem walk_iff (segments : List Segment) : ∀ v : Data σ,
    (walk py (.data v) segments).getD (.data py.none) =
      .data ((valueAt py v segments).getD py.none) ↔ Confined py v segments := by
  induction segments with
  | nil => simp [valueAt, Confined]
  | cons s rest ih =>
    intro v
    cases s with
    | key k =>
      cases v with
      | dict kvs =>
        rw [walk_cons, Confined, ← ih]
        cases h : kvs.lookup (String.ofList k) <;>
          simp [readStep, resolveAttr, valueAt, h, valueAt_none]
      | scalar _ | list _ => simp [readStep, valueAt, Confined]
    | index text =>
      cases v with
      | list vs =>
        simp only [walk_cons, readStep, readIndex, valueAt, Confined]
        cases (py.int text).bind (itemAt vs) with
        | none => simp
        | some v => simpa using ih v
      | scalar _ | dict _ => simp [readStep, readIndex, valueAt, Confined]

/-! ### Expressions -/

inductive BinOp
  | add
  | sub
  | mult
  | div
  | other

/-- The nodes that `visit` knows; every other node is `other`. -/
inductive Expr (σ ω : Type)
  | constant (value : Thing σ ω)
  | binOp (op : BinOp) (left right : Expr σ ω)
  | call (func : Option String) (args : List (Expr σ ω))
  | attribute (value : Expr σ ω) (attr : String)
  | name (id : String)
  | subscript (value slice : Expr σ ω)
  | uSub (operand : Expr σ ω)
  | other

/-- Python's arithmetic; on data it gives data. A dictionary key is a text, or another value that
can be hashed, or raises. -/
structure Operators (σ ω : Type) where
  zero : σ
  numeric : σ → Bool
  truthy : Thing σ ω → Bool
  binOp : BinOp → Thing σ ω → Thing σ ω → Except String (Thing σ ω)
  call : String → List (Thing σ ω) → Except String (Thing σ ω)
  neg : Thing σ ω → Except String (Thing σ ω)
  asInt : Thing σ ω → Option ℤ
  asKey : Thing σ ω → Except String (Option String)
  parse : List Char → Except String (Expr σ ω)
  binOp_data : ∀ op v w t, binOp op (.data v) (.data w) = .ok t → ∃ u, t = .data u
  call_data : ∀ (f : String) (vs : List (Data σ)) (t : Thing σ ω),
    call f (vs.map .data) = .ok t → ∃ u, t = .data u
  neg_data : ∀ v t, neg (.data v) = .ok t → ∃ u, t = .data u

variable (ops : Operators σ ω)

def allowedFunctions : List String := ["min", "max", "abs", "round", "floor", "ceil"]

def applyOp (op : BinOp) (left right : Thing σ ω) : Except String (Thing σ ω) :=
  match op with
  | .other => .error "Unsupported operator"
  | .div => if ops.truthy right then ops.binOp .div left right else .ok (.data (.scalar ops.zero))
  | op => ops.binOp op left right

def subscript (target index : Thing σ ω) : Except String (Thing σ ω) :=
  match target with
  | .data (.list vs) =>
    match ops.asInt index with
    | some n => ((itemAt vs n).map .data).elim (.error "list index out of range") .ok
    | none => .ok (.data py.none)
  | .data (.dict kvs) => do
    let key ← ops.asKey index
    return .data ((key.bind (kvs.lookup ·)).getD py.none)
  | _ => .ok (.data py.none)

mutual
def visit (context : Data σ) : Expr σ ω → Except String (Thing σ ω)
  | .constant value => .ok value
  | .binOp op left right => do
    let l ← visit context left
    let r ← visit context right
    applyOp ops op l r
  | .call func args =>
    match func.filter (· ∈ allowedFunctions) with
    | some f => do ops.call f (← visitAll context args)
    | none => .error "Unsupported function"
  | .attribute value attr => do return resolveAttr py (← visit context value) attr
  | .name id => if id = "root" then .ok (.data context) else .error "Unsupported variable"
  | .subscript value slice => do
    let target ← visit context value
    let index ← visit context slice
    subscript py ops target index
  | .uSub operand => do ops.neg (← visit context operand)
  | .other => .error "Unsupported expression"

def visitAll (context : Data σ) : List (Expr σ ω) → Except String (List (Thing σ ω))
  | [] => .ok []
  | e :: es => do
    let t ← visit context e
    let ts ← visitAll context es
    return t :: ts
end

/-- `source.replace("$.", "root.", 1)` on a source that starts with it. -/
def rooted : List Char → List Char
  | '$' :: '.' :: rest => "root.".toList ++ rest
  | source => source

/-- `evaluate_math_expr` -/
def evaluateMathExpr (expression : List Char) (context : Data σ) : Except String (Thing σ ω) := do
  visit py ops context (← ops.parse (rooted (pyStrip expression)))

/-- A value that arithmetic computes from values inside the context and from the `literals`. -/
inductive Computed (context : Data σ) (literals : List (Thing σ ω)) : Data σ → Prop
  | root : Computed context literals context
  | none : Computed context literals py.none
  | zero : Computed context literals (.scalar ops.zero)
  | literal {s : σ} : .data (.scalar s) ∈ literals → ops.numeric s →
    Computed context literals (.scalar s)
  | entry {kvs : List (String × Data σ)} {k : String} {v : Data σ} :
    Computed context literals (.dict kvs) → kvs.lookup k = some v → Computed context literals v
  | item {vs : List (Data σ)} {n : ℤ} {v : Data σ} :
    Computed context literals (.list vs) → itemAt vs n = some v → Computed context literals v
  | binOp {op : BinOp} {v w u : Data σ} : Computed context literals v →
    Computed context literals w → ops.binOp op (.data v) (.data w) = .ok (.data u) →
    Computed context literals u
  | call {f : String} {vs : List (Data σ)} {u : Data σ} : (∀ v ∈ vs, Computed context literals v) →
    ops.call f (vs.map .data) = .ok (.data u) → Computed context literals u
  | neg {v u : Data σ} : Computed context literals v → ops.neg (.data v) = .ok (.data u) →
    Computed context literals u

mutual
def Expr.literals : Expr σ ω → List (Thing σ ω)
  | .constant value => [value]
  | .binOp _ l r | .subscript l r => l.literals ++ r.literals
  | .call _ args => allLiterals args
  | .attribute e _ | .uSub e => e.literals
  | .name _ | .other => []

def allLiterals : List (Expr σ ω) → List (Thing σ ω)
  | [] => []
  | e :: es => e.literals ++ allLiterals es
end

/-- The constant is a number. -/
def Numeral (value : Thing σ ω) : Prop := ∃ s, value = .data (.scalar s) ∧ ops.numeric s

/-- The name is an object's key, or as a Python attribute of the value it gives `None`. -/
def Attributeless (value : Thing σ ω) (attr : String) : Prop :=
  (∃ kvs, value = .data (.dict kvs)) ∨ resolveAttr py value attr = .data py.none

mutual
/-- The constants are numbers and no name is read as a Python attribute. -/
def Plain (context : Data σ) : Expr σ ω → Prop
  | .constant value => Numeral ops value
  | .binOp _ l r | .subscript l r => Plain context l ∧ Plain context r
  | .call _ args => PlainAll context args
  | .attribute e attr =>
    Plain context e ∧ ∀ t, visit py ops context e = .ok t → Attributeless py t attr
  | .uSub e => Plain context e
  | .name _ | .other => True

def PlainAll (context : Data σ) : List (Expr σ ω) → Prop
  | [] => True
  | e :: es => Plain context e ∧ PlainAll context es
end

section
variable {py : Interpreter σ ω} {ops : Operators σ ω} {context : Data σ}
  {literals : List (Thing σ ω)}

/-- The thing is data that arithmetic computes from the context and the literals. -/
def Sound (py : Interpreter σ ω) (ops : Operators σ ω) (context : Data σ)
    (literals : List (Thing σ ω)) (t : Thing σ ω) : Prop :=
  ∃ v, t = .data v ∧ Computed py ops context literals v

theorem sound_none : Sound py ops context literals (.data py.none) := ⟨_, rfl, .none⟩

theorem sound_attr {t : Thing σ ω} {attr : String} (ht : Sound py ops context literals t)
    (ha : Attributeless py t attr) : Sound py ops context literals (resolveAttr py t attr) := by
  obtain ⟨v, rfl, hv⟩ := ht
  obtain ⟨kvs, hkvs⟩ | ha := ha
  · obtain rfl : v = .dict kvs := by simpa using hkvs
    cases h : kvs.lookup attr with
    | none => simpa [resolveAttr, h] using sound_none
    | some w => exact ⟨w, by simp [resolveAttr, h], .entry hv h⟩
  · exact ha ▸ sound_none

theorem sound_applyOp {op : BinOp} {l r t : Thing σ ω} (hl : Sound py ops context literals l)
    (hr : Sound py ops context literals r) (h : applyOp ops op l r = .ok t) :
    Sound py ops context literals t := by
  obtain ⟨v, rfl, hv⟩ := hl
  obtain ⟨w, rfl, hw⟩ := hr
  have hop : ∀ op, ops.binOp op (.data v) (.data w) = .ok t → Sound py ops context literals t := by
    intro op h
    obtain ⟨u, rfl⟩ := ops.binOp_data op v w t h
    exact ⟨u, rfl, .binOp hv hw h⟩
  unfold applyOp at h
  split at h
  · cases h
  · split at h
    · exact hop _ h
    · cases h
      exact ⟨_, rfl, .zero⟩
  · exact hop _ h

theorem sound_subscript {target index t : Thing σ ω} (ht : Sound py ops context literals target)
    (h : subscript py ops target index = .ok t) : Sound py ops context literals t := by
  obtain ⟨v, rfl, hv⟩ := ht
  cases v with
  | scalar _ => cases h; exact sound_none
  | list vs =>
    cases hn : ops.asInt index with
    | none => simp only [subscript, hn] at h; cases h; exact sound_none
    | some n =>
      cases hi : itemAt vs n with
      | none => simp [subscript, hn, hi] at h
      | some w => simp only [subscript, hn, hi] at h; cases h; exact ⟨w, rfl, .item hv hi⟩
  | dict kvs =>
    cases hk : ops.asKey index with
    | error _ => simp [subscript, hk, bind, Except.bind] at h
    | ok key =>
      simp only [subscript, hk] at h
      cases h
      cases hw : key.bind (kvs.lookup ·) with
      | none => exact sound_none
      | some w =>
        obtain ⟨k, -, hk⟩ := Option.bind_eq_some_iff.1 hw
        exact ⟨w, rfl, .entry hv hk⟩

mutual
theorem sound_visit {t : Thing σ ω} : ∀ e : Expr σ ω, Plain py ops context e →
    e.literals ⊆ literals → visit py ops context e = .ok t → Sound py ops context literals t
  | .constant value, hp, hl, h => by
    cases h
    obtain ⟨s, rfl, hs⟩ := hp
    exact ⟨_, rfl, .literal (hl (List.mem_singleton.2 rfl)) hs⟩
  | .binOp op l r, hp, hl, h => by
    obtain ⟨hll, hlr⟩ := List.append_subset.1 hl
    obtain ⟨a, ha, h⟩ := bind_eq_ok.1 h
    obtain ⟨b, hb, h⟩ := bind_eq_ok.1 h
    exact sound_applyOp (sound_visit l hp.1 hll ha) (sound_visit r hp.2 hlr hb) h
  | .call func args, hp, hl, h => by
    rw [visit] at h
    split at h
    · obtain ⟨ts, hts, h⟩ := bind_eq_ok.1 h
      obtain ⟨vs, rfl, hvs⟩ := sound_visitAll args hp hl hts
      obtain ⟨u, rfl⟩ := ops.call_data _ vs t h
      exact ⟨u, rfl, .call hvs h⟩
    · cases h
  | .attribute value attr, hp, hl, h => by
    obtain ⟨a, ha, h⟩ := bind_eq_ok.1 h
    cases h
    exact sound_attr (sound_visit value hp.1 hl ha) (hp.2 a ha)
  | .name id, _, _, h => by
    rw [visit] at h
    split at h
    · cases h
      exact ⟨_, rfl, .root⟩
    · cases h
  | .subscript value slice, hp, hl, h => by
    obtain ⟨a, ha, h⟩ := bind_eq_ok.1 h
    obtain ⟨b, -, h⟩ := bind_eq_ok.1 h
    exact sound_subscript (sound_visit value hp.1 (List.append_subset.1 hl).1 ha) h
  | .uSub operand, hp, hl, h => by
    obtain ⟨a, ha, h⟩ := bind_eq_ok.1 h
    obtain ⟨v, rfl, hv⟩ := sound_visit operand hp hl ha
    obtain ⟨u, rfl⟩ := ops.neg_data v t h
    exact ⟨u, rfl, .neg hv h⟩
  | .other, _, _, h => nomatch h

theorem sound_visitAll {ts : List (Thing σ ω)} : ∀ es : List (Expr σ ω),
    PlainAll py ops context es → allLiterals es ⊆ literals → visitAll py ops context es = .ok ts →
    ∃ vs : List (Data σ), ts = vs.map .data ∧ ∀ v ∈ vs, Computed py ops context literals v
  | [], _, _, h => by cases h; exact ⟨[], rfl, by simp⟩
  | e :: es, hp, hl, h => by
    obtain ⟨hle, hles⟩ := List.append_subset.1 hl
    obtain ⟨a, ha, h⟩ := bind_eq_ok.1 h
    obtain ⟨as, has, h⟩ := bind_eq_ok.1 h
    cases h
    obtain ⟨v, rfl, hv⟩ := sound_visit e hp.1 hle ha
    obtain ⟨vs, rfl, hvs⟩ := sound_visitAll es hp.2 hles has
    exact ⟨v :: vs, rfl, List.forall_mem_cons.2 ⟨hv, hvs⟩⟩
end

end

/-- `None` and the whole numbers, with their method `bit_length`. -/
def wholeNumbers : Interpreter (Option ℤ) String where
  null := none
  getattr
    | .data (.scalar (some _)), "bit_length" => some (.object "int.bit_length")
    | _, _ => none
  int text :=
    if text ≠ [] ∧ text.all Char.isDigit then
      some (text.foldl (fun n c => 10 * n + (c.toNat - '0'.toNat : ℕ)) 0)
    else none
  int_empty := by simp

def product : Thing (Option ℤ) String → Thing (Option ℤ) String → Except String (Data (Option ℤ))
  | .data (.scalar (some m)), .data (.scalar (some n)) => .ok (.scalar (some (m * n)))
  | _, _ => .error "unsupported operand type(s)"

def doubled : Expr (Option ℤ) String :=
  .binOp .mult (.attribute (.name "root") "n") (.constant (.data (.scalar (some 2))))

def products : Operators (Option ℤ) String where
  zero := some 0
  numeric := Option.isSome
  truthy _ := true
  binOp
    | .mult, l, r => (product l r).map .data
    | _, _, _ => .error "unsupported operand type(s)"
  call _ _ := .error "unsupported"
  neg _ := .error "unsupported"
  asInt _ := none
  asKey _ := .error "unhashable type"
  parse source := if source = "root.n * 2".toList then .ok doubled else .error "invalid syntax"
  binOp_data op v w t h := by
    cases op <;> simp only [reduceCtorEq] at h
    cases hp : product (.data v) (.data w) with
    | error _ => simp [hp, Except.map] at h
    | ok u => exact ⟨u, by simpa [hp, Except.map] using h.symm⟩
  call_data _ _ _ h := nomatch h
  neg_data _ _ h := nomatch h

def oneNumber : Data (Option ℤ) := .dict [("n", .scalar (some 7))]

end RuleMind.JsonPath
