/-
  The machine of the devices (`variable_vm.dart`), and where it computes what the Python
  function of a variable does.

  Dart's `toString` of a double belongs to its runtime and is a parameter; numbers are
  exact, and a text that reads as an infinity or as not a number makes no exact number.
-/
import RuleMind.VariableMachine

namespace RuleMind.VarCode.Dart

open Text

/-! ### Numbers and texts -/

/-- The spaces of Dart's `trim`. -/
def space (c : Char) : Bool := isSpace c || c.toNat == 0xfeff

/-- `double.tryParse`: no number is `none`, no exact number `some none`. -/
def tryParse (s : String) : Option (Option ℚ) :=
  let (neg, cs) := sign (trimBy space s.toList)
  if cs = "Infinity".toList ∨ cs = "NaN".toList then some none
  else (readDecimal cs).map fun q => some (if neg then -q else q)

/-- `_numeric`; nothing where it is no exact number. -/
def numeric : Value → Option ℚ
  | .int n => some n
  | .float q => some q
  | .inf _ => none
  | .bool b => some (if b then 1 else 0)
  | .str s => (tryParse s).getD (some 0)
  | .null | .list _ | .dict _ => some 0

section Text
variable (floatText : ℚ → String)

mutual

/-- `toString`. -/
def text : Value → String
  | .null => "null"
  | .bool b => if b then "true" else "false"
  | .int n => n.repr
  | .float q => floatText q
  | .inf neg => if neg then "-Infinity" else "Infinity"
  | .str s => s
  | .list vs => "[" ++ ", ".intercalate (textItems vs) ++ "]"
  | .dict kvs => "\x7b" ++ ", ".intercalate (textFields kvs) ++ "\x7d"

def textItems : List Value → List String
  | [] => []
  | v :: vs => text v :: textItems vs

def textFields : List (String × Value) → List String
  | [] => []
  | (k, v) :: kvs => (k ++ ": " ++ text v) :: textFields kvs

end

end Text

/-! ### Paths -/

/-- `[A-Za-z0-9_\-]`. -/
def wordChar (c : Char) : Bool := c.isAlphanum || c == '_' || c == '-'

/-- `\[(\-?\d+)\]`. -/
def readIndex : List Char → Option ℤ
  | '[' :: cs =>
    let (neg, cs) := match cs with
      | '-' :: cs => (true, cs)
      | cs => (false, cs)
    let digits := cs.takeWhile Char.isDigit
    if digits ≠ [] ∧ (cs.dropWhile Char.isDigit).head? = some ']' then
      some (if neg then -digitsValue digits else digitsValue digits)
    else none
  | _ => none

/-- The first match in a segment: its key and its index. -/
def parseSegment (segment : List Char) : Option (String × Option ℤ) :=
  let cs := segment.dropWhile fun c => !wordChar c
  if cs = [] then none
  else some (String.ofList (cs.takeWhile wordChar), readIndex (cs.dropWhile wordChar))

def resolveSegment (current : Value) (segment : List Char) : Value :=
  match parseSegment segment with
  | none => .null
  | some (key, index) =>
    let entry := (current.field key).getD .null
    match index, entry with
    | none, _ => entry
    | some i, .list vs => (itemAt vs i).getD .null
    | some _, _ => .null

/-- `_resolvePath` on a path. -/
def resolvePath (root : Value) (rawPath : String) : Value :=
  let path := match rawPath.toList with
    | '$' :: '.' :: path => path
    | path => path
  if path = [] then root else (path.splitOn '.').foldl resolveSegment root

/-- `a ?? b`. -/
def orNull (a b : Value) : Value := if a.isNull then b else a

/-- `values.reduce(...)` for `max` and `min`. -/
def reduce (largest : Bool) : List ℚ → Value
  | [] => .float 0
  | v :: vs => .float (vs.foldl
    (if largest then fun l r => if r < l then l else r else fun l r => if l < r then l else r) v)

section
variable (floatText : ℚ → String) (sourceId : String) (payload earlier : Dict)

/-- `VariableVm`: its registers at the start and its operations. -/
def machine : Machine where
  start := startRegisters (sourcePayload sourceId payload) payload earlier
  absent name :=
    if name = "" then .null
    else orNull (resolvePath (.dict (sourcePayload sourceId payload)) name)
      (orNull (resolvePath (.dict (sourcePayload sourceId payload)) name)
        (resolvePath (.dict earlier) name))
  receiver v := orNull v (.dict (sourcePayload sourceId payload))
  find source _ key :=
    match key with
    | .str path => some (orNull (resolvePath source path) (resolvePath (.dict payload) path))
    | .null => some (orNull source (.dict payload))
    | _ => none
  negate := negateBy numeric
  arith := arithBy numeric
  pick largest args := (args.mapM numeric).map (reduce largest)
  cast := castBy numeric (text floatText)

def evaluate (code : Code) : Option Value :=
  (machine floatText sourceId payload earlier).evaluate code

end

def PlainKey (key : String) : Prop := key ≠ "" ∧ ∀ c ∈ key.toList, wordChar c = true

section
variable (py : PyText) (floatText : ℚ → String)

def rules (payload : Dict) : Rules where
  find kvs key := PlainKey key ∧
    ((kvs.lookup key).getD .null = .null → (payload.lookup key).getD .null = .null)
  negate v := v.numeric = some 0
  arith _ a b := a.numeric.isSome ∧ b.numeric.isSome
  pick largest vs :=
    (∀ v ∈ vs, v.numeric.isSome) ∧ ∀ v, pyPick largest vs = some v → v.isBool = false
  cast := CastShared numeric (text floatText) py

end

/-! ### Operations -/

theorem numeric_eq (v : Value) (q : ℚ) (h : v.numeric = some q) : numeric v = some q := by
  cases v with
  | bool _ | int _ | float _ => exact h
  | null | inf _ | str _ | list _ | dict _ => cases h

theorem resolvePath_plain {key : String} (h : PlainKey key) (kvs : Dict) :
    resolvePath (.dict kvs) key = (kvs.lookup key).getD .null := by
  obtain ⟨hne, hword⟩ := h
  have hnil : key.toList ≠ [] := fun he => hne (String.toList_eq_nil_iff.1 he)
  have hpath : (match key.toList with
      | '$' :: '.' :: path => path
      | path => path) = key.toList := by
    split
    · rename_i path hp
      have := hword '$' (by rw [hp]; exact List.mem_cons_self)
      exact absurd this (by decide)
    · rfl
  have hdots : key.toList.splitOn '.' = [key.toList] := by
    refine List.splitOnP_eq_singleton fun c hc => ?_
    by_contra hdot
    obtain rfl : c = '.' := by simpa using hdot
    exact absurd (hword '.' hc) (by decide)
  have hskip : key.toList.dropWhile (fun c => !wordChar c) = key.toList :=
    dropWhile_of_head fun c hc => by simp [hword c (List.mem_of_mem_head? hc)]
  have htake : key.toList.takeWhile wordChar = key.toList := List.takeWhile_eq_self_iff.2 hword
  have hdrop : key.toList.dropWhile wordChar = [] := List.dropWhile_eq_nil_iff.2 hword
  rw [resolvePath, hpath, if_neg hnil, hdots]
  simp only [List.foldl_cons, List.foldl_nil, resolveSegment, parseSegment, hskip, if_neg hnil,
    htake, hdrop, String.ofList_toList]
  rfl

section
variable {py : PyText} {floatText : ℚ → String} {sourceId : String} {payload earlier : Dict}

theorem find_plain {kvs : Dict} {key : String} (token : String)
    (h : (rules py floatText payload).find kvs key) :
    (machine floatText sourceId payload earlier).find (.dict kvs) token (.str key) =
      some ((kvs.lookup key).getD .null) := by
  obtain ⟨hplain, hnull⟩ := h
  show some (orNull (resolvePath (.dict kvs) key) (resolvePath (.dict payload) key)) = _
  rw [resolvePath_plain hplain, resolvePath_plain hplain]
  by_cases h : (kvs.lookup key).getD .null = .null
  · rw [h, hnull h]
    rfl
  · cases hv : (kvs.lookup key).getD .null <;> first | rfl | exact absurd hv h

theorem reduce_cons (largest : Bool) (q : ℚ) (qs : List ℚ) :
    reduce largest (q :: qs) = .float (pickFrom largest q qs) := by
  have hlargest : (fun l r : ℚ => if r < l then l else r) = max := by
    funext l r
    rcases lt_or_ge r l with h | h
    · rw [if_pos h, max_eq_left h.le]
    · rw [if_neg h.not_gt, max_eq_right h]
  have hsmallest : (fun l r : ℚ => if l < r then l else r) = min := by
    funext l r
    rcases lt_or_ge l r with h | h
    · rw [if_pos h, min_eq_left h.le]
    · rw [if_neg h.not_gt, min_eq_right h]
  rw [reduce, hlargest, hsmallest, pickFrom]

theorem machine_keeps :
    (machine floatText sourceId payload earlier).Keeps py (rules py floatText payload) where
  start _ h := lookup_startRegisters h _ _ _
  receiver _ := rfl
  find token h := find_plain token h
  negate h hlike hu := negateBy_zero numeric_eq rfl h hlike hu
  arith h hlikeA hlikeB hu := arithBy_numbers numeric_eq h.1 h.2 hlikeA hlikeB hu
  pick h hlikes hu := pickBy_numbers numeric_eq (reduce_cons _) h.1 h.2 hlikes hu
  cast h hlike hkept hu := castBy_agrees numeric_eq h hlike hkept hu

end

/-! ### A share of a payload, and a negated constant -/

/-- `amount = payload.get("amount", 0); return max(amount * variables["rate"], 1)`. -/
def share : FunctionDef where
  params := [⟨"payload", none⟩, ⟨"variables", none⟩]
  body :=
    [.assign "amount" (.get (.name "payload") [.const (.str "amount"), .const (.int 0)]),
      .ret (some (.pick true
        [.binop .mul (.name "amount") (.subscript (.name "variables") (.const (.str "rate"))),
          .const (.int 1)]))]

/-- `return -5`. -/
def negated : FunctionDef where
  params := [⟨"payload", none⟩, ⟨"variables", none⟩]
  body := [.ret (some (.neg (.const (.int 5))))]

end RuleMind.VarCode.Dart
