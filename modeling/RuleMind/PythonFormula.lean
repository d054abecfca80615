/-
  Formulas on the server against Python's own evaluation: `_Evaluator` of `app/safe_formula.py`.

  `python` is what Python gives on the constructs that are allowed, with a name from the context and
  a callee from the functions: `and` and `or` stop at the operand that decides, and the result of a
  comparison is what the operator gives.
-/
import RuleMind.FormulaErrors

namespace RuleMind.PythonFormula

open FormulaErrors
open Formula (BinOp UnaryOp BoolOp CmpOp)

variable {Obj Exc : Type}

/-! ### Python's evaluation -/

section Python
variable (O : Objects Obj Exc) (functions : Functions Obj Exc) (context : String → Option Obj)
  (boolean : Bool)

/-- What a comparison is worth: its result, or the boolean that this tests as. -/
def compared (result : Obj) : Option Obj :=
  if boolean then (O.truth result).toOption.map fun t => O.literal (.bool t) else some result

/-- What the last operand of `and` and `or` is worth, tested or not. -/
def lastOperand (v : Obj) : Option Obj :=
  if boolean then (O.truth v).toOption.map fun _ => v else some v

mutual

/-- The value that Python gives, where no exponent and no repetition is too large; with `boolean`,
    each comparison is the boolean that it tests as, and the last operand is tested too. -/
def python : Node → Option Obj
  | .constant .other => none
  | .constant value => some (O.literal value)
  | .name id => context id
  | .binOp left (.allowed op) right => do
    let a ← python left
    let b ← python right
    if (FormulaErrors.refusal O op a b).isSome then none else (O.binary op a b).toOption
  | .binOp _ (.other _) _ => none
  | .unaryOp (some op) operand => do (O.unary op (← python operand)).toOption
  | .unaryOp none _ => none
  | .boolOp op values => pythonBools op values
  | .compare left rest => do pythonChain (← python left) rest
  | .ifExp test body orelse => do
    if ← (O.truth (← python test)).toOption then python body else python orelse
  | .call (.name id) args false => do
    let func ← functions id
    (func (← pythonAll args)).toOption
  | .call _ _ _ => none
  | .list elts => (pythonAll elts).map O.list
  | .tuple elts => (pythonAll elts).map O.tuple
  | .other _ => none

def pythonAll : List Node → Option (List Obj)
  | [] => some []
  | node :: nodes => do return (← python node) :: (← pythonAll nodes)

def pythonBools (op : BoolOp) : List Node → Option Obj
  | [] => some (start O op)
  | [node] => do lastOperand O boolean (← python node)
  | node :: nodes => do
    let v ← python node
    if (← (O.truth v).toOption) = decide (op = .or) then some v else pythonBools op nodes

/-- A chain of comparisons up to the one that fails. -/
def pythonChain (a : Obj) : List (Option CmpOp × Node) → Option Obj
  | [] => some (O.literal (.bool true))
  | (none, _) :: _ => none
  | (some op, node) :: rest => do
    let b ← python node
    let result ← (O.compare op a b).toOption
    if rest.isEmpty then compared O boolean result
    else if ← (O.truth result).toOption then pythonChain b rest
    else compared O boolean result

end

end Python

/-! ### What is come to -/

section Reach
variable (O : Objects Obj Exc) (functions : Functions Obj Exc) (context : String → Option Obj)

/-- A comparator that a chain of comparisons comes to. -/
inductive Along : Obj → List (Option CmpOp × Node) → Node → Prop
  | head {a : Obj} {op : CmpOp} {node : Node} {rest : List (Option CmpOp × Node)} :
      Along a ((some op, node) :: rest) node
  | tail {a b r : Obj} {op : CmpOp} {node e : Node} {rest : List (Option CmpOp × Node)}
      (hb : python O functions context true node = some b) (hcompare : O.compare op a b = .ok r)
      (htruth : O.truth r = .ok true) (h : Along b rest e) : Along a ((some op, node) :: rest) e

/-- An expression inside another that its evaluation comes to, where every operand of an `and` or
    an `or` counts. -/
inductive Child : Node → Node → Prop
  | left {left right : Node} {op : BinOp} : Child (.binOp left (.allowed op) right) left
  | right {left right : Node} {op : BinOp} : Child (.binOp left (.allowed op) right) right
  | operand {op : UnaryOp} {e : Node} : Child (.unaryOp (some op) e) e
  | value {op : BoolOp} {values : List Node} {e : Node} (h : e ∈ values) :
      Child (.boolOp op values) e
  | first {left : Node} {rest : List (Option CmpOp × Node)} : Child (.compare left rest) left
  | comparator {left e : Node} {rest : List (Option CmpOp × Node)} {a : Obj}
      (ha : python O functions context true left = some a)
      (h : Along O functions context a rest e) : Child (.compare left rest) e
  | test {test body orelse : Node} : Child (.ifExp test body orelse) test
  | body {test body orelse : Node} {t : Obj}
      (ht : python O functions context true test = some t) (htruth : O.truth t = .ok true) :
      Child (.ifExp test body orelse) body
  | orelse {test body orelse : Node} {t : Obj}
      (ht : python O functions context true test = some t) (htruth : O.truth t = .ok false) :
      Child (.ifExp test body orelse) orelse
  | arg {id : String} {args : List Node} {e : Node} (h : e ∈ args) :
      Child (.call (.name id) args false) e
  | listItem {elts : List Node} {e : Node} (h : e ∈ elts) : Child (.list elts) e
  | tupleItem {elts : List Node} {e : Node} (h : e ∈ elts) : Child (.tuple elts) e

inductive Reached : Node → ℕ → Node → Prop
  | here {node : Node} : Reached node 0 node
  | under {node c e : Node} {d : ℕ} (hchild : Child O functions context node c)
      (h : Reached c d e) : Reached node (d + 1) e

/-- What is come to fits the stack, and every operand of an `and` or an `or` has a value. -/
def Covered (limit : ℕ) (node : Node) : Prop :=
  ∀ d e, Reached O functions context node d e → d < limit ∧
    ∀ op values, e = .boolOp op values →
      ∀ operand ∈ values, (python O functions context true operand).isSome

end Reach

/-! ### The evaluator gives what Python gives -/

section Agreement
variable {O : Objects Obj Exc} {functions : Functions Obj Exc} {context : String → Option Obj}
  {n : ℕ} {node : Node} {v : Obj}

theorem toOption_eq_some {x : Except (Failure Exc) Obj} : x.toOption = some v ↔ x = .ok v := by
  cases x with
  | error e => exact iff_of_false (fun h => by cases h) (fun h => by cases h)
  | ok w =>
    show some w = some v ↔ _
    rw [Option.some.injEq, Except.ok.injEq]

variable {a w : Obj} {t : Bool} {rest : List (Option CmpOp × Node)} {op : BoolOp} {nodes : List
  Node} {vs : List Obj}

theorem pythonChain_link {b r : Obj} {op : CmpOp}
    (hb : python O functions context true node = some b)
    (hcompare : O.compare op a b = .ok r) (htruth : O.truth r = .ok t) :
    pythonChain O functions context true a ((some op, node) :: rest) =
      if t then pythonChain O functions context true b rest
      else some (O.literal (.bool false)) := by
  have hcompared : compared O true r = some (O.literal (.bool t)) := by
    rw [compared, if_pos rfl, htruth]
    rfl
  rw [pythonChain, hb, Option.bind_eq_bind, Option.bind_some, hcompare]
  show (if rest.isEmpty = true then _ else _) = _
  rw [hcompared, htruth]
  cases rest with
  | nil => grind [pythonChain]
  | cons link rest => cases t with
    | true => rfl
    | false => rfl

theorem pythonBools_cons
    (hv : python O functions context true node = some v) (htruth : O.truth v = .ok t) :
    pythonBools O functions context true op (node :: nodes) =
      if t = decide (op = .or) ∨ nodes = [] then some v
      else pythonBools O functions context true op nodes := by
  cases nodes with
  | nil =>
    rw [if_pos (.inr rfl), pythonBools, hv, Option.bind_eq_bind, Option.bind_some, lastOperand,
      if_pos rfl, htruth]
    rfl
  | cons next nodes =>
    rw [pythonBools, hv, Option.bind_eq_bind, Option.bind_some, htruth]
    · show (if t = decide (op = .or) then _ else _) = _
      simp
    · exact List.cons_ne_nil _ _

theorem choose_cons {s : Obj} (htruth : O.truth w = .ok t) : choose O op s (w :: vs) =
      if t = decide (op = .or) then .ok w else choose O op w vs := by
  rw [choose, htruth]
  cases t with
  | true => cases op with
    | and => rfl
    | or => rfl
  | false => cases op with
    | and => rfl
    | or => rfl

theorem choose_truth {s : Obj}
    (h : choose O op s (w :: vs) = .ok v) : ∃ t, O.truth w = .ok t := by grind [choose, bind_eq_ok]

section Step
variable (hn : ∀ node v, Evaluates O functions context n node v →
  python O functions context true node = some v)

include hn

theorem pythonAll_of {nodes : List Node} {vs : List Obj}
    (h : EvaluatesAll O functions context n nodes vs) :
    pythonAll O functions context true nodes = some vs := by
  induction nodes generalizing vs with
  | nil =>
    cases h
    rw [pythonAll]
  | cons node nodes ih =>
    cases h with
    | cons hv h =>
      rw [pythonAll, hn _ _ hv, ih h]
      rfl

theorem pythonChain_of {a : Obj} {rest : List (Option CmpOp × Node)}
    (h : EvaluatesChain O functions context n a rest v) :
    pythonChain O functions context true a rest = some v := by
  induction rest generalizing a with
  | nil =>
    cases h
    rw [pythonChain]
  | cons link rest ih =>
    cases h with
    | stop hb hcompare htruth => exact pythonChain_link (hn _ _ hb) hcompare htruth
    | next hb hcompare htruth h => exact (pythonChain_link (hn _ _ hb) hcompare htruth).trans (ih h)

theorem pythonBools_of {op : BoolOp} {values : List Node} {vs : List Obj} {s : Obj}
    (hvs : EvaluatesAll O functions context n values vs) (hs : values = [] → s = start O op)
    (h : choose O op s vs = .ok v) : pythonBools O functions context true op values = some v := by
  induction values generalizing vs s with
  | nil =>
    cases hvs
    cases h
    rw [hs rfl, pythonBools]
  | cons node nodes ih =>
    cases hvs with
    | cons hw hvs =>
      obtain ⟨t, htruth⟩ := choose_truth h
      rw [choose_cons htruth] at h
      rw [pythonBools_cons (hn _ _ hw) htruth]
      split at h
      · cases h
        rw [if_pos (.inl ‹_›)]
      · cases nodes with
        | nil =>
          cases hvs
          cases h
          rw [if_pos (.inr rfl)]
        | cons next nodes => grind

theorem python_step {node : Node} (h : Evaluates O functions context (n + 1) node v) :
    python O functions context true node = some v := by
  cases h with
  | constant hvalue => simp [python]
  | name hid =>
    rw [python]
    exact hid
  | binOp hleft hright hrefusal h =>
    rw [python, hn _ _ hleft, hn _ _ hright]
    show (if (FormulaErrors.refusal O _ _ _).isSome = true then _ else _) = _
    rw [hrefusal, h]
    rfl
  | unaryOp ha h =>
    rw [python, hn _ _ ha]
    exact toOption_eq_some.2 h
  | boolOp hvs h =>
    rw [python]
    exact pythonBools_of hn hvs (fun _ => rfl) h
  | compare hleft h =>
    rw [python, hn _ _ hleft]
    exact pythonChain_of hn h
  | ifTrue htest htruth h =>
    rw [python, hn _ _ htest, Option.bind_eq_bind, Option.bind_some, htruth]
    exact hn _ _ h
  | ifFalse htest htruth h =>
    rw [python, hn _ _ htest, Option.bind_eq_bind, Option.bind_some, htruth]
    exact hn _ _ h
  | call hfunc hvs h =>
    rw [python, hfunc, pythonAll_of hn hvs]
    exact toOption_eq_some.2 h
  | list hvs =>
    rw [python, pythonAll_of hn hvs]
    rfl
  | tuple hvs =>
    rw [python, pythonAll_of hn hvs]
    rfl

omit hn in
theorem python_of_evaluates {n : ℕ} : ∀ node v, Evaluates O functions context n node v →
    python O functions context true node = some v := by
  induction n with
  | zero =>
    intro node v h
    cases h
  | succ n ih => exact fun node v h => python_step ih h

end Step

/-! ### The evaluator comes to what is come to -/

theorem evaluates_all {e : Node}
    (h : EvaluatesAll O functions context n nodes vs) (he : e ∈ nodes) :
    ∃ w, Evaluates O functions context n e w := by
  induction nodes generalizing vs with
  | nil => cases he
  | cons node nodes ih =>
    cases h with
    | cons hv h => grind

theorem evaluates_along {e : Node} (h : EvaluatesChain O functions context n a rest v)
    (he : Along O functions context a rest e) : ∃ w, Evaluates O functions context n e w := by
  induction he with
  | head =>
    cases h with
    | stop hb _ _ => exact ⟨_, hb⟩
    | next hb _ _ _ => exact ⟨_, hb⟩
  | tail hb hcompare htruth _ ih =>
    cases h with
    | stop hb' hcompare' htruth' =>
      cases hb.symm.trans (python_of_evaluates _ _ hb')
      simp_all
    | next hb' _ _ h =>
      cases hb.symm.trans (python_of_evaluates _ _ hb')
      exact ih h

theorem evaluates_child {c : Node} (h : Evaluates O functions context (n + 1) node v)
    (hc : Child O functions context node c) : ∃ w, Evaluates O functions context n c w := by
  cases hc with
  | left =>
    cases h with
    | binOp hleft _ _ _ => exact ⟨_, hleft⟩
  | right =>
    cases h with
    | binOp _ hright _ _ => exact ⟨_, hright⟩
  | operand =>
    cases h with
    | unaryOp ha _ => exact ⟨_, ha⟩
  | value he =>
    cases h with
    | boolOp hvs _ => exact evaluates_all hvs he
  | first =>
    cases h with
    | compare hleft _ => exact ⟨_, hleft⟩
  | comparator ha halong =>
    cases h with
    | compare hleft h =>
      cases ha.symm.trans (python_of_evaluates _ _ hleft)
      exact evaluates_along h halong
  | test =>
    cases h with
    | ifTrue htest _ _ => exact ⟨_, htest⟩
    | ifFalse htest _ _ => exact ⟨_, htest⟩
  | body ht htruth =>
    cases h with
    | ifTrue _ _ h => exact ⟨_, h⟩
    | ifFalse htest hfalse _ =>
      cases ht.symm.trans (python_of_evaluates _ _ htest)
      cases htruth.symm.trans hfalse
  | orelse ht htruth =>
    cases h with
    | ifFalse _ _ h => exact ⟨_, h⟩
    | ifTrue htest htrue _ =>
      cases ht.symm.trans (python_of_evaluates _ _ htest)
      cases htruth.symm.trans htrue
  | arg he =>
    cases h with
    | call _ hvs _ => exact evaluates_all hvs he
  | listItem he =>
    cases h with
    | list hvs => exact evaluates_all hvs he
  | tupleItem he =>
    cases h with
    | tuple hvs => exact evaluates_all hvs he

theorem covered_of_evaluates (h : Evaluates O functions context n node v) :
    Covered O functions context n node := by
  intro d e hreached
  induction hreached generalizing n v with
  | here =>
    cases n with
    | zero => cases h
    | succ n =>
      refine ⟨Nat.succ_pos n, ?_⟩
      rintro op values rfl operand hoperand
      obtain ⟨w, hw⟩ := evaluates_child h (.value hoperand)
      rw [python_of_evaluates _ _ hw]
      rfl
  | under hchild _ ih =>
    cases n with
    | zero => cases h
    | succ n =>
      obtain ⟨w, hw⟩ := evaluates_child h hchild
      grind

/-! ### What is covered is evaluated -/

theorem evaluatesAll_of (hn : ∀ e ∈ nodes, ∀ w, python O functions context true e = some w →
      Evaluates O functions context n e w)
    (h : pythonAll O functions context true nodes = some vs) :
    EvaluatesAll O functions context n nodes vs := by
  induction nodes generalizing vs with
  | nil =>
    rw [pythonAll] at h
    cases h
    exact .nil
  | cons node nodes ih =>
    rw [pythonAll] at h
    obtain ⟨v, hv, h⟩ := Option.bind_eq_some_iff.1 h
    obtain ⟨vs', hvs, h⟩ := Option.bind_eq_some_iff.1 h
    cases h
    rw [List.forall_mem_cons] at hn
    exact .cons (hn.1 v hv) (ih hn.2 hvs)

theorem evaluatesChain_of (hn : ∀ e, Along O functions context a rest e → ∀ w,
      python O functions context true e = some w → Evaluates O functions context n e w)
    (h : pythonChain O functions context true a rest = some v) :
    EvaluatesChain O functions context n a rest v := by
  induction rest generalizing a with
  | nil =>
    rw [pythonChain] at h
    cases h
    exact .nil
  | cons link rest ih =>
    obtain ⟨op, node⟩ := link
    cases op with
    | none =>
      rw [pythonChain] at h
      cases h
    | some op =>
      have hlink := h
      rw [pythonChain] at h
      obtain ⟨b, hb, h⟩ := Option.bind_eq_some_iff.1 h
      obtain ⟨r, hr, h⟩ := Option.bind_eq_some_iff.1 h
      have hcompare := toOption_eq_some.1 hr
      obtain ⟨t, htruth⟩ : ∃ t, O.truth r = .ok t := by
        cases htruth : O.truth r with
        | ok t => exact ⟨t, rfl⟩
        | error e =>
          rw [compared, if_pos rfl, htruth] at h
          split at h
          · cases h
          · cases h
      rw [pythonChain_link hb hcompare htruth] at hlink
      cases t with
      | true =>
        exact .next (hn _ .head _ hb) hcompare htruth
          (ih (fun e he => hn e (.tail hb hcompare htruth he)) hlink)
      | false =>
        cases hlink
        exact .stop (hn _ .head _ hb) hcompare htruth

theorem pythonAll_isSome (h : ∀ e ∈ nodes, (python O functions context true e).isSome) :
    ∃ vs, pythonAll O functions context true nodes = some vs := by
  induction nodes with
  | nil => exact ⟨[], by rw [pythonAll]⟩
  | cons node nodes ih =>
    rw [List.forall_mem_cons] at h
    obtain ⟨v, hv⟩ := Option.isSome_iff_exists.1 h.1
    obtain ⟨vs, hvs⟩ := ih h.2
    exact ⟨v :: vs, by rw [pythonAll, hv, hvs]; rfl⟩

theorem pythonBools_truth (hw : python O functions context true node = some w)
    (h : pythonBools O functions context true op (node :: nodes) = some v) :
    ∃ t, O.truth w = .ok t := by
  cases htruth : O.truth w with
  | ok t => exact ⟨t, rfl⟩
  | error e =>
    cases nodes with
    | nil =>
      rw [pythonBools, hw, Option.bind_eq_bind, Option.bind_some, lastOperand, if_pos rfl,
        htruth] at h
      cases h
    | cons next nodes =>
      rw [pythonBools, hw, Option.bind_eq_bind, Option.bind_some, htruth] at h
      · cases h
      · exact List.cons_ne_nil _ _

theorem evaluatesBools_of {values : List Node}
    (hn : ∀ e ∈ values, ∀ w, python O functions context true e = some w →
      Evaluates O functions context n e w)
    (hvalues : ∀ e ∈ values, (python O functions context true e).isSome)
    (h : pythonBools O functions context true op values = some v) :
    ∃ vs, EvaluatesAll O functions context n values vs ∧
      ∀ s, (values = [] → s = start O op) → choose O op s vs = .ok v := by
  induction values with
  | nil =>
    rw [pythonBools] at h
    cases h
    refine ⟨[], .nil, fun s hs => ?_⟩
    rw [hs rfl]
    rfl
  | cons node nodes ih =>
    rw [List.forall_mem_cons] at hn hvalues
    obtain ⟨w, hw⟩ := Option.isSome_iff_exists.1 hvalues.1
    obtain ⟨t, htruth⟩ := pythonBools_truth hw h
    rw [pythonBools_cons hw htruth] at h
    split at h
    · rename_i hdecides
      cases h
      obtain ⟨vs, hvs⟩ := pythonAll_isSome hvalues.2
      have hall := evaluatesAll_of hn.2 hvs
      refine ⟨v :: vs, .cons (hn.1 v hw) hall, fun s _ => ?_⟩
      rw [choose_cons htruth]
      split
      · rfl
      · obtain rfl := hdecides.resolve_left ‹_›
        cases hall
        rfl
    · rename_i hrest
      rw [not_or] at hrest
      obtain ⟨vs, hvs, hchoose⟩ := ih hn.2 hvalues.2 h
      refine ⟨w :: vs, .cons (hn.1 w hw) hvs, fun s _ => ?_⟩
      rw [choose_cons htruth, if_neg hrest.1]
      exact hchoose w fun hnil => absurd hnil hrest.2

theorem evaluates_step (hn : ∀ c, Child O functions context node c → ∀ w,
      python O functions context true c = some w → Evaluates O functions context n c w)
    (hvalues : ∀ op values, node = .boolOp op values →
      ∀ operand ∈ values, (python O functions context true operand).isSome)
    (h : python O functions context true node = some v) :
    Evaluates O functions context (n + 1) node v := by
  cases node with
  | constant value =>
    cases value with
    | other =>
      rw [python] at h
      cases h
    | _ =>
      rw [python] at h
      · cases h
        exact .constant fun h => by cases h
      · intro h
        cases h
  | name id =>
    rw [python] at h
    exact .name h
  | binOp left op right =>
    cases op with
    | other kind =>
      rw [python] at h
      cases h
    | allowed op =>
      rw [python] at h
      obtain ⟨a, ha, h⟩ := Option.bind_eq_some_iff.1 h
      obtain ⟨b, hb, h⟩ := Option.bind_eq_some_iff.1 h
      split at h
      · cases h
      · rename_i hrefusal
        exact .binOp (hn _ .left _ ha) (hn _ .right _ hb)
          (Option.not_isSome_iff_eq_none.1 hrefusal) (toOption_eq_some.1 h)
  | unaryOp op operand =>
    cases op with
    | none =>
      rw [python] at h
      cases h
    | some op =>
      rw [python] at h
      obtain ⟨a, ha, h⟩ := Option.bind_eq_some_iff.1 h
      exact .unaryOp (hn _ .operand _ ha) (toOption_eq_some.1 h)
  | boolOp op values =>
    rw [python] at h
    obtain ⟨vs, hvs, hchoose⟩ := evaluatesBools_of (fun e he => hn e (.value he))
      (hvalues op values rfl) h
    exact .boolOp hvs (hchoose _ fun _ => rfl)
  | compare left rest =>
    rw [python] at h
    obtain ⟨a, ha, h⟩ := Option.bind_eq_some_iff.1 h
    exact .compare (hn _ .first _ ha) (evaluatesChain_of (fun e he => hn e (.comparator ha he)) h)
  | ifExp test body orelse =>
    rw [python] at h
    obtain ⟨t, ht, h⟩ := Option.bind_eq_some_iff.1 h
    obtain ⟨b, hb, h⟩ := Option.bind_eq_some_iff.1 h
    have htruth : O.truth t = .ok b := by
      cases htruth : O.truth t with
      | ok b' =>
        rw [htruth] at hb
        cases hb
        rfl
      | error e =>
        rw [htruth] at hb
        cases hb
    cases b with
    | true => exact .ifTrue (hn _ .test _ ht) htruth (hn _ (.body ht htruth) _ h)
    | false => exact .ifFalse (hn _ .test _ ht) htruth (hn _ (.orelse ht htruth) _ h)
  | call func args keywords =>
    cases func with
    | name id =>
      cases keywords with
      | true => simp_all [python]
      | false =>
        rw [python] at h
        obtain ⟨f, hf, h⟩ := Option.bind_eq_some_iff.1 h
        obtain ⟨vs, hvs, h⟩ := Option.bind_eq_some_iff.1 h
        exact .call hf (evaluatesAll_of (fun e he => hn e (.arg he)) hvs) (toOption_eq_some.1 h)
    | _ => simp_all [python]
  | list elts =>
    rw [python, Option.map_eq_some_iff] at h
    obtain ⟨vs, hvs, rfl⟩ := h
    exact .list (evaluatesAll_of (fun e he => hn e (.listItem he)) hvs)
  | tuple elts =>
    rw [python, Option.map_eq_some_iff] at h
    obtain ⟨vs, hvs, rfl⟩ := h
    exact .tuple (evaluatesAll_of (fun e he => hn e (.tupleItem he)) hvs)
  | other kind =>
    rw [python] at h
    cases h

theorem evaluates_of_covered (h : Covered O functions context n node)
    (hv : python O functions context true node = some v) :
    Evaluates O functions context n node v := by
  induction n generalizing node v with
  | zero => exact absurd (h 0 node .here).1 (Nat.lt_irrefl 0)
  | succ n ih =>
    refine evaluates_step (fun c hc w hw => ih (fun d e he => ?_) hw)
      (fun op values heq => (h 0 node .here).2 op values heq) hv
    obtain ⟨hlt, hvalues⟩ := h (d + 1) e (.under hc he)
    exact ⟨Nat.lt_of_succ_lt_succ hlt, hvalues⟩

end Agreement

/-! ### Values of the built-in types -/

/-- A comparison gives a boolean, and every value can be tested. -/
structure BuiltIn (O : Objects Obj Exc) : Prop where
  compare : ∀ op a b r, O.compare op a b = .ok r → ∃ t, r = O.literal (.bool t)
  bool : ∀ t, O.truth (O.literal (.bool t)) = .ok t
  truth : ∀ v, ∃ t, O.truth v = .ok t

section BuiltIn
variable {O : Objects Obj Exc} {functions : Functions Obj Exc} {context : String → Option Obj}

theorem lastOperand_builtIn (h : BuiltIn O) (v : Obj) :
    lastOperand O true v = lastOperand O false v := by
  obtain ⟨t, ht⟩ := h.truth v
  rw [lastOperand, if_pos rfl, ht]
  rfl

theorem compared_builtIn (h : BuiltIn O) {op : CmpOp} {a b r : Obj}
    (hr : (O.compare op a b).toOption = some r) : compared O true r = compared O false r := by
  obtain ⟨t, rfl⟩ := h.compare op a b r (toOption_eq_some.1 hr)
  rw [compared, if_pos rfl, h.bool]
  rfl

mutual

theorem python_builtIn (h : BuiltIn O) : ∀ node,
    python O functions context true node = python O functions context false node
  | .constant value => by
    cases value with
    | other => rw [python, python]
    | _ => simp [python]
  | .name id => by rw [python, python]
  | .binOp left op right => by
    cases op with
    | other kind => rw [python, python]
    | allowed op => rw [python, python, python_builtIn h left, python_builtIn h right]
  | .unaryOp op operand => by
    cases op with
    | none => rw [python, python]
    | some op => rw [python, python, python_builtIn h operand]
  | .boolOp op values => by rw [python, python, pythonBools_builtIn h op values]
  | .compare left rest => by
    rw [python, python, python_builtIn h left]
    congr 1
    funext a
    exact pythonChain_builtIn h a rest
  | .ifExp test body orelse => by
    rw [python, python, python_builtIn h test, python_builtIn h body, python_builtIn h orelse]
  | .call func args keywords => by
    cases func with
    | name id =>
      cases keywords with
      | false => rw [python, python, pythonAll_builtIn h args]
      | true => simp [python]
    | _ => simp [python]
  | .list elts => by rw [python, python, pythonAll_builtIn h elts]
  | .tuple elts => by rw [python, python, pythonAll_builtIn h elts]
  | .other kind => by rw [python, python]

theorem pythonAll_builtIn (h : BuiltIn O) : ∀ nodes,
    pythonAll O functions context true nodes = pythonAll O functions context false nodes
  | [] => by rw [pythonAll, pythonAll]
  | node :: nodes => by rw [pythonAll, pythonAll, python_builtIn h node, pythonAll_builtIn h nodes]

theorem pythonBools_builtIn (h : BuiltIn O) (op : BoolOp) : ∀ nodes,
    pythonBools O functions context true op nodes = pythonBools O functions context false op nodes
  | [] => by rw [pythonBools, pythonBools]
  | [node] => by
    rw [pythonBools, pythonBools, python_builtIn h node]
    simp only [lastOperand_builtIn h]
  | node :: next :: nodes => by
    rw [pythonBools, python_builtIn h node, pythonBools_builtIn h op (next :: nodes)]
    · conv_rhs => rw [pythonBools.eq_3 _ _ _ _ _ _ _ (List.cons_ne_nil _ _)]
    · exact List.cons_ne_nil _ _

theorem pythonChain_builtIn (h : BuiltIn O) (a : Obj) : ∀ rest,
    pythonChain O functions context true a rest = pythonChain O functions context false a rest
  | [] => by rw [pythonChain, pythonChain]
  | (none, _) :: _ => by rw [pythonChain, pythonChain]
  | (some op, node) :: rest => by
    rw [pythonChain, pythonChain, python_builtIn h node]
    refine Option.bind_congr fun b _ => Option.bind_congr fun r hr => ?_
    rw [compared_builtIn h hr, pythonChain_builtIn h b rest]

end

end BuiltIn

/-! ### The formula -/

/-- **The evaluator is Python** on a formula that has a value, if and only if everything that it
    comes to has one, within the stack; the value is the one of tested comparisons, which among
    values of the built-in types it always is. -/
theorem formula_agrees_iff (O : Objects Obj Exc) (functions : Functions Obj Exc)
    (context : String → Option Obj) {parse : String → Except String Node} {formula : String}
    {body : Node} {v : Obj} (hparse : parse formula = .ok body)
    (hpython : python O functions context false body = some v) (limit : ℕ) :
    (evaluateFormula O functions context parse limit formula = .ok v ↔
      python O functions context true body = some v ∧ Covered O functions context limit body) ∧
    (BuiltIn O → python O functions context true body = some v) := by
  refine ⟨?_, fun h => (python_builtIn h body).trans hpython⟩
  grind [evaluateFormula, visit_iff, python_of_evaluates, covered_of_evaluates,
    evaluates_of_covered]

/-- `x != 0 and 10 / x > 2`. -/
def guarded : Node :=
  .boolOp .and [.compare (.name "x") [(some .notEq, .constant (.int 0))],
    .compare (.binOp (.constant (.int 10)) (.allowed .div) (.name "x"))
      [(some .gt, .constant (.int 2))]]

def parseGuarded (formula : String) : Except String Node :=
  if formula = "x != 0 and 10 / x > 2" then .ok guarded else .error "invalid syntax"

def withX (x : ℤ) (id : String) : Option Value := if id = "x" then some (.int x) else none

/-- Where nothing is skipped. -/
theorem guarded_two : parseGuarded "x != 0 and 10 / x > 2" = .ok guarded ∧
    python (jsonObjects asciiPython) (fun _ => none) (withX 2) false guarded = some (.bool true) ∧
    Covered (jsonObjects asciiPython) (fun _ => none) (withX 2) 100 guarded := by
  have hparse : parseGuarded "x != 0 and 10 / x > 2" = .ok guarded := rfl
  have hpython : python (jsonObjects asciiPython) (fun _ => none) (withX 2) false guarded =
      some (.bool true) := by decide +kernel
  have hvalue : evaluateFormula (jsonObjects asciiPython) (fun _ => none) (withX 2) parseGuarded
      100 "x != 0 and 10 / x > 2" = .ok (.bool true) := toOption_eq_some.1 (by decide +kernel)
  exact ⟨hparse, hpython, ((formula_agrees_iff _ _ _ hparse hpython 100).1.1 hvalue).2⟩

/-- The division that Python skips fails. -/
theorem skipped_division : parseGuarded "x != 0 and 10 / x > 2" = .ok guarded ∧
    python (jsonObjects asciiPython) (fun _ => none) (withX 0) false guarded = some (.bool false) ∧
    ∃ text, evaluateFormula (jsonObjects asciiPython) (fun _ => none) (withX 0) parseGuarded 100
      "x != 0 and 10 / x > 2" = .error (.formula text) :=
  ⟨rfl, rfl, _, rfl⟩

end RuleMind.PythonFormula
