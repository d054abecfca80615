/-
  The machine of the standalone service (`variables.rs`), and where it computes what the
  Python function of a variable does.

  What `serde_json` writes for a value is a parameter; numbers are exact, and a text that
  reads as an infinity or as not a number makes no exact number.
-/
import RuleMind.VariableMachine

namespace RuleMind.VarCode.Edge

open Text

/-! ### Numbers and paths -/

/-- `s.trim().parse::<f64>()`: no number is `none`, no exact number `some none`. -/
def parseF64 (s : String) : Option (Option ℚ) :=
  let (neg, cs) := sign (trim s.toList)
  if lowerCase cs ∈ ["inf".toList, "infinity".toList, "nan".toList] then some none
  else (readDecimal cs).map fun q => some (if neg then -q else q)

/-- `numeric`; nothing where it is no exact number. -/
def numeric : Value → Option ℚ
  | .int n => some n
  | .float q => some q
  | .inf _ => none
  | .bool b => some (if b then 1 else 0)
  | .str s => (parseF64 s).getD (some 0)
  | .null | .list _ | .dict _ => some 0

/-- What is read of a segment; a bracket that closes before it opens is a panic. -/
inductive Segment
  | entry (key : String) (index : Option ℤ)
  | malformed
  | panics

def parseSegment (segment : List Char) : Segment :=
  let key := segment.takeWhile (· ≠ '[')
  if '[' ∈ segment then
    if ']' ∈ segment then
      let close := (segment.takeWhile (· ≠ ']')).length
      if close < key.length + 1 then .panics
      else match readInt ((segment.take close).drop (key.length + 1)) with
        | some i =>
          if -2 ^ 63 ≤ i ∧ i < 2 ^ 63 then .entry (String.ofList key) (some i) else .malformed
        | none => .malformed
    else .malformed
  else .entry (String.ofList segment) none

/-- `resolve_path` from a value; the outer `none` is a panic. -/
def resolveSegments : Value → List (List Char) → Option (Option Value)
  | current, [] => some (some current)
  | current, segment :: segments =>
    match parseSegment segment, current with
    | .panics, _ => none
    | .malformed, _ => some none
    | .entry key none, .dict kvs => resolveSegments ((kvs.lookup key).getD .null) segments
    | .entry key (some i), .dict kvs =>
      match (kvs.lookup key).getD .null with
      | .list vs => resolveSegments ((itemAt vs i).getD .null) segments
      | _ => some none
    | .entry _ _, _ => some none

def resolvePath (root : Value) (rawPath : String) : Option (Option Value) :=
  let path := match rawPath.toList with
    | '$' :: '.' :: path => path
    | path => path
  if path = [] then some (some root) else resolveSegments root (path.splitOn '.')

/-! ### The machine -/

/-- What `compile_variable` writes beside the instructions. -/
def compiledFields (id sourceId name : String) : Dict :=
  [("id", .str id), ("sourceId", .str sourceId), ("name", .str name), ("returnType", .str "number")]

/-- The payload of the source that the compiled variable names, or the whole one. -/
def sourceScope (fields payload : Dict) : Dict :=
  sourcePayload (((fields.lookup "source_id").bind Value.asStr).getD "") payload

/-- The fold over the numbers; an empty one is infinite, and becomes 0. -/
def fold (largest : Bool) : List ℚ → Value
  | [] => .float 0
  | v :: vs => .float (vs.foldl (if largest then max else min) v)

/-- The first of the bases in which a name leads to a value; names have no brackets. -/
def resolveName (bases : List Value) (name : String) : Value :=
  match bases with
  | [] => .null
  | base :: bases =>
    match (resolvePath base name).getD none with
    | some v => if v.isNull then resolveName bases name else v
    | none => resolveName bases name

section
variable (json : Value → String)

/-- The path of a key: null leaves the token as it is written. -/
def pathOf (token : String) : Value → String
  | .str s => s
  | .null => token
  | v => json v

def castText : Value → String
  | .str s => s
  | v => json v

variable (fields payload earlier : Dict)

/-- `evaluate_variable`: its registers at the start and its operations. -/
def machine : Machine where
  start := startRegisters (sourceScope fields payload) payload earlier
  absent name :=
    if name = "" then .null
    else resolveName [.dict (sourceScope fields payload), .dict (sourceScope fields payload),
      .dict earlier] name
  receiver v := if v.isNull then .dict (sourceScope fields payload) else v
  find source token key := do
    let found ← resolvePath source (pathOf json token key)
    match found with
    | some v => return v
    | none => (resolvePath (.dict payload) (pathOf json token key)).map (Option.getD · .null)
  negate := negateBy numeric
  arith := arithBy numeric
  pick largest args := (args.mapM numeric).map (fold largest)
  cast := castBy numeric (castText json)

/-- `evaluate_variable`. -/
def evaluate (code : Code) : Option Value := (machine json fields payload earlier).evaluate code

end

def PlainKey (key : String) : Prop := key ≠ "" ∧ ∀ c ∈ key.toList, c ≠ '.' ∧ c ≠ '['

def rules (py : PyText) (json : Value → String) : Rules where
  find _ key := PlainKey key
  negate v := v.numeric = some 0
  arith _ a b := a.numeric.isSome ∧ b.numeric.isSome
  pick largest vs :=
    (∀ v ∈ vs, v.numeric.isSome) ∧ ∀ v, pyPick largest vs = some v → v.isBool = false
  cast := CastShared numeric (castText json) py

/-! ### Operations -/

theorem numeric_eq (v : Value) (q : ℚ) (h : v.numeric = some q) : numeric v = some q := by
  cases v with
  | bool _ | int _ | float _ => exact h
  | null | inf _ | str _ | list _ | dict _ => cases h

theorem resolvePath_plain {key : String} (h : PlainKey key) (kvs : Dict) :
    resolvePath (.dict kvs) key = some (some ((kvs.lookup key).getD .null)) := by
  obtain ⟨hne, hplain⟩ := h
  have hnil : key.toList ≠ [] := fun he => hne (String.toList_eq_nil_iff.1 he)
  have hpath : (match key.toList with
      | '$' :: '.' :: path => path
      | path => path) = key.toList := by
    split
    · rename_i path hp
      have := (hplain '.' (by rw [hp]; simp)).1
      exact absurd rfl this
    · rfl
  have hdots : key.toList.splitOn '.' = [key.toList] := by
    refine List.splitOnP_eq_singleton fun c hc => ?_
    simpa using (hplain c hc).1
  have hsegment : parseSegment key.toList = .entry key none := by
    rw [parseSegment, if_neg fun hb => (hplain '[' hb).2 rfl, String.ofList_toList]
  simp_all [resolvePath, resolveSegments]

section
variable {py : PyText} {json : Value → String} {fields payload earlier : Dict}

theorem find_plain {kvs : Dict} {key : String} (token : String) (h : PlainKey key) :
    (machine json fields payload earlier).find (.dict kvs) token (.str key) =
      some ((kvs.lookup key).getD .null) := by
  simp only [machine, pathOf, resolvePath_plain h]
  rfl

theorem machine_keeps : (machine json fields payload earlier).Keeps py (rules py json) where
  start _ h := lookup_startRegisters h _ _ _
  receiver _ := rfl
  find token h := find_plain token h
  negate h hlike hu := negateBy_zero numeric_eq rfl h hlike hu
  arith h hlikeA hlikeB hu := arithBy_numbers numeric_eq h.1 h.2 hlikeA hlikeB hu
  pick h hlikes hu := pickBy_numbers numeric_eq (fun _ _ => rfl) h.1 h.2 hlikes hu
  cast h hlike hkept hu := castBy_agrees numeric_eq h hlike hkept hu

end

/-! ### A count of items, and a refund -/

/-- `return int(payload["count"]) + 1`. -/
def itemCount : FunctionDef where
  params := [⟨"payload", none⟩, ⟨"variables", none⟩]
  body := [.ret (some (.binop .add
    (.cast .int (.subscript (.name "payload") (.const (.str "count")))) (.const (.int 1))))]

/-- `return -payload["amount"]`. -/
def refund : FunctionDef where
  params := [⟨"payload", none⟩, ⟨"variables", none⟩]
  body := [.ret (some (.neg (.subscript (.name "payload") (.const (.str "amount")))))]

end RuleMind.VarCode.Edge
